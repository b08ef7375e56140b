import BlockCache.Proofs.Calls
import BlockCache.Proofs.InMemory
import Mathlib.Control.Monad.Basic

/-!
The states that a cache can reach. What every step keeps holds of all of them, as long as a file
that is opened has a descriptor of its own; over files in memory it always has.
-/

namespace BlockCache

namespace Cache

variable {σ φ : Type} [Storage σ φ] {admits : Cache σ φ → Request → Prop} {first c : Cache σ φ}

/-- The states reached from a first one by requests that are admitted. -/
inductive Reachable (admits : Cache σ φ → Request → Prop) (first : Cache σ φ) :
    Cache σ φ → Prop where
  | first : Reachable admits first first
  | serve {c : Cache σ φ} (request : Request) (hc : Reachable admits first c)
      (hadmits : admits c request) : Reachable admits first (serve request c).2

/-- What every step keeps, together with the order of the cache, holds of every state reached. -/
theorem Reachable.induct {P : Cache σ φ → Prop} (h : Reachable admits first c)
    (hfresh : ∀ c request, admits c request → c.IsFresh request)
    (hstep : ∀ {c c' as new}, Step c as new c' → c.Regular → P c → P c')
    (hreg : first.Regular) (hfirst : P first) : c.Regular ∧ P c := by
  induction h with
  | first => exact ⟨hreg, hfirst⟩
  | serve request _ hrequest ih =>
      obtain ⟨as, new, hsteps, -⟩ := serve_steps ih.1 request (hfresh _ _ hrequest)
      refine hsteps.induct (P := fun c => c.Regular ∧ P c) ?_ ih
      intro c c' as new hs hc
      exact ⟨hs.regular hc.1, hstep hs hc.1 hc.2⟩

/-- A session of which every file that is opened has a descriptor of its own reaches a state. -/
theorem Reachable.session {requests : List Request} (h : Reachable IsFresh first c)
    (hfresh : AllFresh requests c) : Reachable IsFresh first (session requests c).2 := by
  induction requests generalizing c with
  | nil => exact h
  | cons request rest ih => exact ih (.serve request h hfresh.1) hfresh.2

end Cache

namespace Memory

open Cache

theorem descriptorsBelow_of_reachable {files : Catalog Path ByteArray} {slotCount : Nat}
    {allocator : Allocator}
    {c : Cache Memory File}
    (h : Reachable IsFresh (Cache.new (ofFiles files) slotCount allocator) c) :
    DescriptorsBelow c := by
  refine (h.induct (fun _ _ hfresh => hfresh) ?_ (regular_new _ _ _) ?_).2
  · intro c c' as new hstep _ hbelow
    exact descriptorsBelow_step hstep hbelow
  · intro h f hf
    exact absurd hf (get?_new _ _ _)

theorem allFresh_of_below {c : Cache Memory File} (hreg : c.Regular) (hbelow : DescriptorsBelow c)
    (requests : List Request) : AllFresh requests c := by
  induction requests generalizing c with
  | nil => trivial
  | cons request rest ih =>
      have hfresh := isFresh_of_below hbelow request
      obtain ⟨as, new, hsteps, -⟩ := serve_steps hreg request hfresh
      exact ⟨hfresh, ih (hsteps.regular hreg) (hsteps.induct descriptorsBelow_step hbelow)⟩

/-- Whatever is asked of a cache over files in memory, every file that is opened has a descriptor of
its own. -/
theorem allFresh_new (m : Memory) (slotCount : Nat) (allocator : Allocator)
    (requests : List Request) :
    AllFresh requests (Cache.new m slotCount allocator : Cache Memory File) :=
  allFresh_of_below (regular_new m slotCount allocator) (fun _ _ hf => absurd hf (get?_new _ _ _))
    requests

/-- Whatever is asked of a cache over files in memory, no two open files get one descriptor. -/
theorem reachable_session (files : Catalog Path ByteArray) (slotCount : Nat) (allocator : Allocator)
    (requests : List Request) :
    Reachable IsFresh (Cache.new (ofFiles files) slotCount allocator)
      (session requests (Cache.new (ofFiles files) slotCount allocator)).2 :=
  .session .first (allFresh_new (ofFiles files) slotCount allocator requests)

end Memory

end BlockCache
