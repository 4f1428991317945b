import LeigodAPM.Foundation.Spacing
import LeigodAPM.SystemEye.CPU

/-!
# Memory usage

`systemUsage` multiplies five page counts of the kernel by the page size, in floating point;
`applicationUsage` returns the resident size of the task.

* `bytes_exact`: no byte is lost, whatever the count, for a page size that is not too large.
-/

namespace LeigodAPM

open Foundation

/-- The page counts of `vm_statistics64`. -/
structure VmStatistics64 where
  free_count : UInt32
  active_count : UInt32
  inactive_count : UInt32
  wire_count : UInt32
  compressor_page_count : UInt32

/-- `vm_statistics64()` -/
def VmStatistics64.zero : VmStatistics64 := ⟨0, 0, 0, 0, 0⟩

/-- What `host_statistics64` returns and leaves in a buffer that was all zeros. -/
structure HostStatistics64 where
  result : Int32
  hostInfo : VmStatistics64
  unwritten : result ≠ KERN_SUCCESS → hostInfo = .zero

/-- What `task_info` returns and leaves in the buffer. -/
structure TaskInfo where
  kerr : Int32
  resident_size : UInt64

/-- The named tuple that `systemUsage` returns. -/
structure MemoryUsage where
  free : Double
  active : Double
  inactive : Double
  wired : Double
  compressed : Double
  total : Double

/-- The constants of a device. -/
structure MemoryDevice where
  vm_kernel_page_size : UInt64
  physicalMemory : UInt64

namespace Memory

variable (F : FloatFormat) (device : MemoryDevice)

/-- `PAGE_SIZE` -/
def pageSize : Double := F.ofRat device.vm_kernel_page_size.toNat

def totalBytes : Double := F.ofRat device.physicalMemory.toNat

/-- A debug build prints a line when the query fails, and goes on as the other builds do. -/
def vmStatistics64 (reply : HostStatistics64) : VmStatistics64 := reply.hostInfo

def applicationUsage (reply : TaskInfo) : Double × Double :=
  if reply.kerr = KERN_SUCCESS then (F.ofRat reply.resident_size.toNat, totalBytes F device)
  else (.fin 0, totalBytes F device)

def bytes (count : UInt32) : Double := F.mul (F.ofRat count.toNat) (pageSize F device)

def systemUsage (reply : HostStatistics64) : MemoryUsage :=
  let statistics := vmStatistics64 reply
  { free := bytes F device statistics.free_count
    active := bytes F device statistics.active_count
    inactive := bytes F device statistics.inactive_count
    wired := bytes F device statistics.wire_count
    compressed := bytes F device statistics.compressor_page_count
    total := totalBytes F device }

/-! ## Exact products -/

variable {device}

theorem bytes_exact (hPage : device.vm_kernel_page_size.toNat ≤ 2 ^ 19) (count : UInt32) :
    bytes binary64 device count =
      .fin ((count.toNat * device.vm_kernel_page_size.toNat : ℕ) : ℚ) := by
  have hCount := count.toNat_lt
  have hProduct : count.toNat * device.vm_kernel_page_size.toNat ≤ 2 ^ 32 * 2 ^ 19 :=
    Nat.mul_le_mul hCount.le hPage
  rw [bytes, pageSize, FloatFormat.ofRat_of_holds (binary64_holdsNats _ (by omega)),
    FloatFormat.ofRat_of_holds (binary64_holdsNats _ (by omega)), FloatFormat.mul_fin,
    ← Nat.cast_mul, FloatFormat.ofRat_of_holds (binary64_holdsNats _ (by omega))]

theorem totalBytes_exact (hTotal : device.physicalMemory.toNat ≤ 2 ^ 53) :
    totalBytes binary64 device = .fin (device.physicalMemory.toNat : ℚ) :=
  FloatFormat.ofRat_of_holds (binary64_holdsNats _ hTotal)

end Memory

end LeigodAPM
