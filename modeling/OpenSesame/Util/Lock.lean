import OpenSesame.Util
import Mathlib.Logic.Function.Basic

/-!
# The instance lock

`util/lock.rs`: `InstanceLock::acquire` opens the lock file and takes `flock(LOCK_EX | LOCK_NB)`;
the drop removes the file, then closes it. Over every interleaving of invocations at most one
instance runs while nobody has removed the file (`run_single_instance`); the removal lets two run
at once (`run_two_instances`).
-/

namespace OpenSesame

namespace InstanceLock

open Function

/-- Where one invocation of `run_launcher` is in `InstanceLock::acquire` and in the lock's drop. -/
inductive Phase where
  | start
  | opened (ino : Nat)
  | running (ino : Nat)
  | refused
  /-- In the drop: the file removed, its descriptor still open. -/
  | removed (ino : Nat)
  | exited
deriving DecidableEq, Repr

structure Fs where
  path : Option Nat
  nextIno : Nat
  holder : Nat → Option Nat

structure System where
  fs : Fs
  phase : Nat → Phase

def System.initial : System := ⟨⟨none, 0, fun _ => none⟩, fun _ => .start⟩

inductive Step where
  | openFile (pid : Nat)
  | flock (pid : Nat)
  | removeFile (pid : Nat)
  | close (pid : Nat)
deriving DecidableEq, Repr

/-- A call of invocation `pid` where its code makes that call next; any other step changes nothing.
-/
def step (s : System) : Step → System
  | .openFile pid =>
    match s.phase pid with
    | .start =>
      match s.fs.path with
      | some ino => { s with phase := update s.phase pid (.opened ino) }
      | none => ⟨{ s.fs with path := some s.fs.nextIno, nextIno := s.fs.nextIno + 1 },
          update s.phase pid (.opened s.fs.nextIno)⟩
    | _ => s
  | .flock pid =>
    match s.phase pid with
    | .opened ino =>
      match s.fs.holder ino with
      | none => ⟨{ s.fs with holder := update s.fs.holder ino (some pid) },
          update s.phase pid (.running ino)⟩
      | some _ => { s with phase := update s.phase pid .refused }
    | _ => s
  | .removeFile pid =>
    match s.phase pid with
    | .running ino => ⟨{ s.fs with path := none }, update s.phase pid (.removed ino)⟩
    | _ => s
  | .close pid =>
    match s.phase pid with
    | .removed ino => ⟨{ s.fs with holder := update s.fs.holder ino none },
        update s.phase pid .exited⟩
    | _ => s

def run (s : System) (steps : List Step) : System := steps.foldl step s

/-- `flock`'s bookkeeping: an inode is held by the instance running on it or removing it. -/
def Held (s : System) : Prop :=
  ∀ pid ino, s.fs.holder ino = some pid ↔ (s.phase pid = .running ino ∨ s.phase pid = .removed ino)

/-- Every instance that has the lock file open and has not removed it has the path's inode. -/
def OnPath (s : System) : Prop :=
  ∀ pid ino, (s.phase pid = .opened ino ∨ s.phase pid = .running ino) → s.fs.path = some ino

section Lemmas

theorem held_initial : Held System.initial := fun _ _ => by simp [System.initial]

theorem Held.flock {s : System} (h : Held s) {pid ino : Nat} (hp : s.phase pid = .opened ino)
    (hfree : s.fs.holder ino = none) :
    Held ⟨{ s.fs with holder := update s.fs.holder ino (some pid) },
      update s.phase pid (.running ino)⟩ := by
  intro q i
  by_cases hq : q = pid
  · subst hq
    by_cases hi : i = ino
    · subst hi; simp
    · have hnot := (h q i).not.2 (by simp [hp])
      simp [hi, Ne.symm hi, hnot]
  · by_cases hi : i = ino
    · subst hi
      have hnot := (h q i).not.1 (by simp [hfree])
      simp [hq, Ne.symm hq, hnot]
    · simp [hi, hq, h q i]

theorem Held.move {s : System} (h : Held s) {pid : Nat} {ph : Phase}
    (hsame : ∀ ino, (ph = .running ino ∨ ph = .removed ino) ↔
      (s.phase pid = .running ino ∨ s.phase pid = .removed ino)) (fs : Fs)
    (hfs : fs.holder = s.fs.holder) : Held ⟨fs, update s.phase pid ph⟩ := by
  intro q i
  by_cases hq : q = pid
  · subst hq; simp [hfs, hsame, h q i]
  · simp [hfs, hq, h q i]

theorem Held.close {s : System} (h : Held s) {pid ino : Nat} (hp : s.phase pid = .removed ino) :
    Held ⟨{ s.fs with holder := update s.fs.holder ino none }, update s.phase pid .exited⟩ := by
  have hheld : s.fs.holder ino = some pid := (h pid ino).2 (.inr hp)
  intro q i
  by_cases hq : q = pid
  · subst hq
    by_cases hi : i = ino
    · subst hi; simp
    · have hnot := (h q i).not.2 (by simp [hp, Ne.symm hi])
      simp [hi, Ne.symm hi, hnot]
  · by_cases hi : i = ino
    · subst hi
      have hnot := (h q i).not.1 (by simp [hheld, hq, Ne.symm hq])
      simp [hq, hnot]
    · simp [hi, hq, h q i]

theorem Held.step {s : System} (h : Held s) (st : Step) : Held (step s st) := by
  cases st with
  | openFile pid =>
    simp only [InstanceLock.step]
    split
    · rename_i hp
      split <;> exact h.move (by simp [hp]) _ rfl
    · exact h
  | flock pid =>
    simp only [InstanceLock.step]
    split
    · rename_i ino hp
      split
      · exact h.flock hp ‹_›
      · exact h.move (by simp [hp]) _ rfl
    · exact h
  | removeFile pid =>
    simp only [InstanceLock.step]
    split
    · rename_i ino hp
      exact h.move (by simp [hp]) _ rfl
    · exact h
  | close pid =>
    simp only [InstanceLock.step]
    split
    · exact h.close ‹_›
    · exact h

theorem Held.run {s : System} (h : Held s) (steps : List Step) : Held (run s steps) := by
  induction steps generalizing s with
  | nil => exact h
  | cons st rest ih => exact ih (h.step st)

theorem onPath_initial : OnPath System.initial := fun _ _ h => by simp [System.initial] at h

theorem OnPath.move {s : System} {pid : Nat} {ph : Phase} (fs : Fs)
    (hph : ∀ ino, (ph = .opened ino ∨ ph = .running ino) → fs.path = some ino)
    (hothers : ∀ q ino, q ≠ pid → (s.phase q = .opened ino ∨ s.phase q = .running ino) →
      fs.path = some ino) : OnPath ⟨fs, update s.phase pid ph⟩ := by
  intro q i hq
  by_cases hqp : q = pid
  · subst hqp; simp only [update_same] at hq; exact hph i hq
  · simp only [ne_eq, hqp, not_false_eq_true, update_noteq] at hq; exact hothers q i hqp hq

theorem OnPath.step {s : System} (h : OnPath s) {st : Step} (hst : ∀ pid, st ≠ .removeFile pid) :
    OnPath (step s st) := by
  cases st with
  | openFile pid =>
    simp only [InstanceLock.step]
    split
    · split
      · rename_i ino hpath
        exact OnPath.move _ (by simp [hpath]) fun q i _ hq => h q i hq
      · rename_i hpath
        exact OnPath.move _ (by simp) fun q i _ hq => absurd (h q i hq) (by simp [hpath])
    · exact h
  | flock pid =>
    simp only [InstanceLock.step]
    split
    · rename_i ino hp
      split
      · exact OnPath.move _ (by simpa using h pid ino (.inl hp)) fun q i _ hq => h q i hq
      · exact OnPath.move _ (by simp) fun q i _ hq => h q i hq
    · exact h
  | removeFile pid => exact absurd rfl (hst pid)
  | close pid =>
    simp only [InstanceLock.step]
    split
    · exact OnPath.move _ (by simp) fun q i _ hq => h q i hq
    · exact h

theorem OnPath.run {s : System} (h : OnPath s) {steps : List Step}
    (hno : ∀ pid, Step.removeFile pid ∉ steps) : OnPath (run s steps) := by
  induction steps generalizing s with
  | nil => exact h
  | cons st rest ih =>
    exact ih (h.step fun pid he => hno pid (he ▸ List.mem_cons_self _ _))
      fun pid hm => hno pid (List.mem_cons_of_mem _ hm)

/-- Over every interleaving of invocations in which no instance has removed the lock file, at most
one instance runs. -/
theorem run_single_instance {steps : List Step} (hno : ∀ pid, Step.removeFile pid ∉ steps)
    (p q i j : Nat) (hp : (run System.initial steps).phase p = .running i)
    (hq : (run System.initial steps).phase q = .running j) : p = q := by
  have hheld := held_initial.run steps
  have hpath := onPath_initial.run hno
  have hij : i = j := Option.some.inj ((hpath p i (.inr hp)).symm.trans (hpath q j (.inr hq)))
  subst hij
  exact Option.some.inj (((hheld p i).2 (.inl hp)).symm.trans ((hheld q i).2 (.inl hq)))

theorem run_single_instance_after_refusal :
    (run System.initial [.openFile 0, .flock 0, .openFile 1, .flock 1]).phase 1 = .refused ∧
      0 = 0 :=
  ⟨by decide, @run_single_instance [.openFile 0, .flock 0, .openFile 1, .flock 1] (by simp)
    0 0 0 0 (by decide) (by decide)⟩

/-- Invocation 1 opens the file while instance 0 runs; instance 0 removes and closes it; invocation
1 locks the removed inode and invocation 2 a fresh file. -/
theorem run_two_instances :
    (run System.initial [.openFile 0, .flock 0, .openFile 1, .removeFile 0, .close 0, .flock 1,
      .openFile 2, .flock 2]).phase 1 = .running 0 ∧
    (run System.initial [.openFile 0, .flock 0, .openFile 1, .removeFile 0, .close 0, .flock 1,
      .openFile 2, .flock 2]).phase 2 = .running 1 := by
  decide

end Lemmas

end InstanceLock

end OpenSesame
