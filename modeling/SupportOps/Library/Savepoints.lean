import Mathlib.Data.List.Basic

/-!
# Transactions with savepoints

One connection to a database. A savepoint inside a transaction nests: releasing it keeps the
transaction open. A savepoint sent while no transaction is open starts one itself, and then its
release commits. Which of the two happens depends on when the driver sends `BEGIN`.
-/
namespace SupportOps.Library

/-- When a driver opens a transaction of its own accord. -/
inductive Begin where
  /-- before the first statement, whatever it is -/
  | eager
  /-- before the first statement that changes rows -/
  | beforeChange
  deriving DecidableEq, Repr

/-- An open transaction: the rows it sees and the snapshots of its savepoints, the innermost
first. Without `begun` its outermost savepoint opened it. -/
structure Transaction (σ : Type*) where
  work : σ
  saves : List σ
  begun : Bool

structure Connection (σ : Type*) where
  stored : σ
  current : Option (Transaction σ)

namespace Connection

variable {σ : Type*}

/-- A connection on which nothing is open. -/
def idle (s : σ) : Connection σ := ⟨s, none⟩

/-- What the connection reads. -/
def view (c : Connection σ) : σ :=
  match c.current with
  | none => c.stored
  | some t => t.work

/-- A statement that changes rows. -/
def change (f : σ → σ) (c : Connection σ) : Connection σ :=
  match c.current with
  | none => { c with current := some ⟨f c.stored, [], true⟩ }
  | some t => { c with current := some { t with work := f t.work } }

/-- `SAVEPOINT` -/
def savepoint (b : Begin) (c : Connection σ) : Connection σ :=
  match c.current with
  | none => { c with current := some ⟨c.stored, [c.stored], b = .eager⟩ }
  | some t => { c with current := some { t with saves := t.work :: t.saves } }

/-- `RELEASE` of the innermost savepoint. -/
def release (c : Connection σ) : Connection σ :=
  match c.current with
  | none => c
  | some ⟨work, [_], false⟩ => ⟨work, none⟩
  | some ⟨work, saves, begun⟩ => { c with current := some ⟨work, saves.tail, begun⟩ }

/-- `ROLLBACK TO` the innermost savepoint, which stays open. -/
def rollbackTo (c : Connection σ) : Connection σ :=
  match c.current with
  | some ⟨_, save :: saves, begun⟩ => { c with current := some ⟨save, save :: saves, begun⟩ }
  | _ => c

def commit (c : Connection σ) : Connection σ := idle c.view

def rollback (c : Connection σ) : Connection σ := idle c.stored

@[simp] theorem view_idle (s : σ) : (idle s).view = s := rfl

@[simp] theorem stored_idle (s : σ) : (idle s).stored = s := rfl

@[simp] theorem view_change (f : σ → σ) (c : Connection σ) : (c.change f).view = f c.view := by
  cases c with
  | mk stored current => cases current <;> rfl

/-- A change is not stored before a commit. -/
@[simp] theorem stored_change (f : σ → σ) (c : Connection σ) : (c.change f).stored = c.stored := by
  cases c with
  | mk stored current => cases current <;> rfl

@[simp] theorem view_savepoint (b : Begin) (c : Connection σ) : (c.savepoint b).view = c.view := by
  cases c with
  | mk stored current => cases current <;> rfl

@[simp] theorem stored_savepoint (b : Begin) (c : Connection σ) :
    (c.savepoint b).stored = c.stored := by
  cases c with
  | mk stored current => cases current <;> rfl

@[simp] theorem stored_rollbackTo (c : Connection σ) : c.rollbackTo.stored = c.stored := by
  unfold rollbackTo; split <;> rfl

/-- Releasing a savepoint loses nothing that the connection sees. -/
@[simp] theorem view_release (c : Connection σ) : c.release.view = c.view := by
  obtain ⟨stored, _ | ⟨work, saves, begun⟩⟩ := c
  · rfl
  · obtain _ | ⟨save, _ | ⟨outer, saves⟩⟩ := saves
    · rfl
    · cases begun <;> rfl
    · rfl

@[simp] theorem stored_commit (c : Connection σ) : c.commit.stored = c.view := rfl

@[simp] theorem stored_rollback (c : Connection σ) : c.rollback.stored = c.stored := rfl

@[simp] theorem view_rollback (c : Connection σ) : c.rollback.view = c.stored := rfl

/-- What the outermost savepoint of an idle connection leaves behind when it is released: a
driver that begins only before a change has committed it. -/
theorem stored_release_savepoint (b : Begin) (f : σ → σ) (s : σ) :
    (((idle s).savepoint b).change f).release.stored = if b = .eager then s else f s := by
  cases b <;> rfl

end Connection

end SupportOps.Library
