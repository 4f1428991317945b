import LeigodAPM.Foundation.Run
import LeigodAPM.Foundation.Hooks
import LeigodAPM.Foundation.Registry
import LeigodAPM.CrashEye.Statics
import LeigodAPM.CrashEye.Undo
import LeigodAPM.CrashEye.Delegates
import LeigodAPM.CrashEye.Crash
import LeigodAPM.CrashEye.Chaining
import LeigodAPM.Foundation.Bounds
import LeigodAPM.SystemEye.NetObjc
import LeigodAPM.SystemEye.NetworkFlow
import LeigodAPM.SystemEye.Workers
import LeigodAPM.Foundation.Binary64
import LeigodAPM.SystemEye.CPU
import LeigodAPM.SystemEye.TickAccount
import LeigodAPM.SystemEye.FPS
import LeigodAPM.CrashEye.Registrations
import LeigodAPM.Foundation.Windows
import LeigodAPM.SystemEye.FrameWindows
import LeigodAPM.SystemEye.SteadyDisplay
import LeigodAPM.Foundation.Loops
import LeigodAPM.SystemEye.InterfaceWalks
import LeigodAPM.SystemEye.Network
import LeigodAPM.SystemEye.ApplicationUsage
import LeigodAPM.SystemEye.ThreadResources
import LeigodAPM.Database.Console
import LeigodAPM.Database.EyesManager
import LeigodAPM.Foundation.HexText
import LeigodAPM.UIColor
import LeigodAPM.SystemEye.InterfaceTotals
import LeigodAPM.Foundation.Tenths
import LeigodAPM.Monitor.Storage
import LeigodAPM.Monitor.Store
import LeigodAPM.Views.RecordTable
import LeigodAPM.Foundation.MainQueue
import LeigodAPM.Views.Geometry
import LeigodAPM.Views.NNExtension
import LeigodAPM.Views.NavigationBar
import LeigodAPM.Views.HoverView
import LeigodAPM.Database.CrashLog
import LeigodAPM.Foundation.Fields
import LeigodAPM.CrashEye.RecordText
import LeigodAPM.Database.ConsoleText
import LeigodAPM.Monitor.MonitorContainerView
import LeigodAPM.Monitor.NetTile
import LeigodAPM.Monitor.SettingView
import LeigodAPM.Foundation.Ownership
import LeigodAPM.Views.Pages
import LeigodAPM.Foundation.Forest
import LeigodAPM.Views.ViewTree
import LeigodAPM.Foundation.Chain
import LeigodAPM.Views.Responders
import LeigodAPM.Views.HoverGestures
import LeigodAPM.Foundation.Grid
import LeigodAPM.Monitor.ContainerLayout
import LeigodAPM.Foundation.Handles
import LeigodAPM.SystemEye.Netmask
import LeigodAPM.Foundation.Spacing
import LeigodAPM.UIColorDouble
import LeigodAPM.UIColorGamut
import LeigodAPM.SystemEye.Memory
import LeigodAPM.Foundation.Percent
import LeigodAPM.Monitor.PercentTiles
import LeigodAPM.Foundation.Parties
import LeigodAPM.Foundation.Custody
import LeigodAPM.WCDB.RWLock
import LeigodAPM.WCDB.HandlePool
import LeigodAPM.WCDB.PoolInvariant
import LeigodAPM.WCDB.PoolRuns
import LeigodAPM.WCDB.Pools
import LeigodAPM.WCDB.Transactions
import LeigodAPM.Foundation.IndexTable
import LeigodAPM.WCDB.TableCoding
import LeigodAPM.WCDB.Tables
import LeigodAPM.Database.CrashTable
