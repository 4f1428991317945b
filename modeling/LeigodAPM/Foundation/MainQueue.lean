import LeigodAPM.Foundation.Run

/-!
# Blocks on a serial queue

`async` puts a block at the end of the queue and returns; the blocks run one after another,
in the order in which they were put there, each on the state that the ones before it left.

* `state_of_run`: when the queue is empty again, all blocks have run in order, however putting
  and running were interleaved.
-/

namespace LeigodAPM.Foundation

open Machine

variable {σ β : Type}

structure MainQueue (σ β : Type) where
  state : σ
  blocks : List β

inductive QueueEvent (β : Type)
  | async (block : β)
  | runNext

namespace MainQueue

def step (execute : σ → β → σ) : Machine (MainQueue σ β) (QueueEvent β)
  | q, .async block => some ⟨q.state, q.blocks ++ [block]⟩
  | ⟨_, []⟩, .runNext => none
  | ⟨s, block :: blocks⟩, .runNext => some ⟨execute s block, blocks⟩

def QueueEvent.block? : QueueEvent β → Option β
  | .async block => some block
  | .runNext => none

/-- The blocks that were put on the queue, in order. -/
def posted (events : List (QueueEvent β)) : List β := events.filterMap QueueEvent.block?

variable {execute : σ → β → σ} {q q' : MainQueue σ β}

/-- Nothing is lost or overtaken: what has run and what waits are the blocks put so far. -/
theorem run_posted (s : σ) {events : List (QueueEvent β)}
    (hRun : (step execute).run ⟨s, []⟩ events = some q) :
    ∃ done, posted events = done ++ q.blocks ∧ q.state = done.foldl execute s := by
  induction events using List.reverseRecOn generalizing q with
  | nil =>
    obtain rfl := Option.some.inj hRun
    exact ⟨[], rfl, rfl⟩
  | append_singleton events e ih =>
    obtain ⟨q₁, hRun₁, hStep⟩ := run_concat_some hRun
    obtain ⟨done, hPosted, hState⟩ := ih hRun₁
    cases e with
    | async block =>
      obtain rfl := Option.some.inj hStep
      refine ⟨done, ?_, hState⟩
      rw [posted, List.filterMap_append, ← posted, hPosted]
      simp [QueueEvent.block?]
    | runNext =>
      obtain ⟨s₁, blocks⟩ := q₁
      cases blocks with
      | nil => cases hStep
      | cons block blocks =>
        obtain rfl := Option.some.inj hStep
        refine ⟨done ++ [block], ?_, ?_⟩
        · rw [posted, List.filterMap_append, ← posted, hPosted]
          simp [QueueEvent.block?]
        · rw [List.foldl_append, ← hState]
          rfl

theorem state_of_run (s : σ) {events : List (QueueEvent β)}
    (hRun : (step execute).run ⟨s, []⟩ events = some q) (hEmpty : q.blocks = []) :
    q.state = (posted events).foldl execute s := by
  obtain ⟨done, hPosted, hState⟩ := run_posted s hRun
  rw [hPosted, hEmpty, List.append_nil, hState]

end MainQueue

end LeigodAPM.Foundation
