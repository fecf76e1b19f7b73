import ServiceDirectory.Proofs.Activity.Parts
import ServiceDirectory.Proofs.Store.Feeds

/-! # Steps of the synchronizer

The synchronizer waits for a reason to run a cycle, imports, and writes back. Except when it imports
it changes nothing of a node but its locks and what it was asked for (`syncMove`), and it does not
read the streams of the store (`syncLoopStep_ask`).
-/

namespace ServiceDirectory

open Activity

variable {n n' : Node} {me now maxTxnOps : Nat}

theorem locks_of_republishStep_move {stage stage' : RepublishStage}
    (h : republishStep me maxTxnOps n stage = .move n' stage') :
    ∃ locks, n' = { n with locks } := by
  cases republishMoved_of_step h <;> exact ⟨_, rfl⟩

theorem locks_of_republishStep_done {stage : RepublishStage} {result : RepublishResult}
    (h : republishStep me maxTxnOps n stage = .done n' result) :
    ∃ locks, n' = { n with locks } := by
  cases republishFinished_of_step h with
  | skipped => exact ⟨n.locks, rfl⟩
  | released result held => exact ⟨_, n.releaseRow_foldl me held⟩

def Activity.SyncLoopStage.importing? : SyncLoopStage → Option ImportStage
  | .running _ _ (.importing stage) => some stage
  | _ => none

inductive SyncMove (n : Node) : SyncLoopStage → Node → SyncLoopStage → Prop
  | wait (tick adoptions : Nat) : SyncMove n .start n (.idle tick adoptions)
  | begin (tick adoptions tick' adoptions' : Nat) (resync : Bool) :
      SyncMove n (.idle tick adoptions) { n with resync := resync }
        (.running tick' adoptions' (.importing .start))
  | writeBack (stage stage' : SyncLoopStage) (locks : RowLocks) :
      SyncMove n stage { n with locks := locks } stage'

theorem syncMove {stage stage' : SyncLoopStage} (hi : stage.importing? = none)
    (h : syncLoopStep me now maxTxnOps n stage = .move n' stage') : SyncMove n stage n' stage' := by
  cases stage with
  | start =>
    simp only [syncLoopStep] at h
    split at h <;> cases h
    exact .wait now n.adoptions
  | idle tick adoptions =>
    simp only [syncLoopStep] at h
    split at h
    · cases h
    · split at h
      · cases h; exact .begin tick adoptions _ _ n.resync
      · split at h
        · cases h; exact .begin tick adoptions _ _ n.resync
        · split at h <;> cases h
          exact .begin tick adoptions _ _ false
  | running tick adoptions stage =>
    cases stage with
    | importing stage => cases hi
    | republishing imported stage =>
      rw [syncLoopStep, syncStep, Progress.within_within] at h
      obtain ⟨stage', hm, rfl⟩ | ⟨n₁, result, hd, h⟩ := Progress.within_eq_move h
      · obtain ⟨locks, rfl⟩ := locks_of_republishStep_move hm
        exact .writeBack _ _ locks
      · cases h
        obtain ⟨locks, rfl⟩ := locks_of_republishStep_done hd
        exact .writeBack _ _ locks

theorem SyncMove.settings {stage stage' : SyncLoopStage} (h : SyncMove n stage n' stage') :
    n'.settings = n.settings := by
  cases h <;> rfl

theorem syncLoopStep_ask {stage : SyncLoopStage} {q : Request}
    {go : q.Answer → Node → Node × SyncLoopStage} {otherwise : Option (Node × SyncLoopStage)}
    (hi : stage.importing? = none)
    (h : syncLoopStep me now maxTxnOps n stage = .ask q go otherwise) :
    q.feed? = none ∧ ∀ a, (go a n).1 = n := by
  cases stage with
  | start => simp only [syncLoopStep] at h; split at h <;> cases h
  | idle tick adoptions =>
    simp only [syncLoopStep] at h
    split at h
    · cases h
    · split at h
      · cases h
      · split at h
        · cases h
        · split at h <;> cases h
  | running tick adoptions stage =>
    cases stage with
    | importing stage => cases hi
    | republishing imported stage =>
      rw [syncLoopStep, syncStep, Progress.within_within] at h
      obtain ⟨go', _, ha, hgo⟩ | ⟨_, _, _, h⟩ := Progress.within_eq_ask h
      · obtain ⟨next, hasked, hnext⟩ := republishAsked_of_step ha
        cases hasked
        exact ⟨rfl, fun a => by rw [hgo, hnext]⟩
      · cases h

theorem eq_of_importing? {stage : SyncLoopStage} {s : ImportStage}
    (h : stage.importing? = some s) :
    ∃ tick adoptions, stage = .running tick adoptions (.importing s) := by
  cases stage with
  | running tick adoptions stage =>
    cases stage with
    | importing stage =>
      cases h
      exact ⟨tick, adoptions, rfl⟩
    | republishing _ _ => cases h
  | _ => cases h

end ServiceDirectory
