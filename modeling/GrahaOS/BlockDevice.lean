import Mathlib.Tactic
import Mathlib.Logic.Function.Basic

/-!
# Block devices with a volatile cache

A device holds durable blocks and the writes issued since the last flush, in order. A flush makes
all of them durable, and a crash keeps an arbitrary subset of them, applied in order. A caller that
stops at the first operation to fail is a script of operations together with the place where it
stops; the failing operation may still have taken effect.
-/

namespace GrahaOS.BlockDevice

open Function List

variable {β : Type*} {ws : List (ℕ × β)} {x : ℕ}

/-- Write a list of blocks in order. -/
def applyWrites (d : ℕ → β) (ws : List (ℕ × β)) : ℕ → β :=
  ws.foldl (fun d w => Function.update d w.1 w.2) d

@[simp] theorem applyWrites_nil (d : ℕ → β) : applyWrites d [] = d := rfl

@[simp] theorem applyWrites_cons (d : ℕ → β) (w : ℕ × β) (ws : List (ℕ × β)) :
    applyWrites d (w :: ws) = applyWrites (update d w.1 w.2) ws := rfl

theorem applyWrites_append (d : ℕ → β) (ws ws' : List (ℕ × β)) :
    applyWrites d (ws ++ ws') = applyWrites (applyWrites d ws) ws' := foldl_append

/-- A block that no write touches keeps its contents. -/
theorem applyWrites_of_not_mem : ∀ {d : ℕ → β}, (∀ w ∈ ws, w.1 ≠ x) → applyWrites d ws x = d x := by
  induction ws with
  | nil =>
    intro d _
    rfl
  | cons w ws ih =>
    intro d h
    rw [applyWrites_cons, ih fun w' hw' => h w' (mem_cons_of_mem w hw'),
      update_of_ne (h w mem_cons_self).symm]

/-- A written block holds one of the blocks written to it. -/
theorem applyWrites_mem : ∀ {d : ℕ → β},
    (∃ w ∈ ws, w.1 = x) → ∃ w ∈ ws, w.1 = x ∧ applyWrites d ws x = w.2 := by
  induction ws with
  | nil =>
    rintro d ⟨w, hw, -⟩
    cases hw
  | cons w ws ih =>
  intro d h
  by_cases hlater : ∃ w' ∈ ws, w'.1 = x
  · obtain ⟨w', hw', hx, heq⟩ := @ih (update d w.1 w.2) hlater
    exact ⟨w', mem_cons_of_mem w hw', hx, heq⟩
  have hfirst : w.1 = x := by
    obtain ⟨w', hw', hx⟩ := h
    rcases mem_cons.mp hw' with rfl | hw'
    · exact hx
    · exact absurd ⟨w', hw', hx⟩ hlater
  refine ⟨w, mem_cons_self, hfirst, ?_⟩
  have hkept : ∀ w' ∈ ws, w'.1 ≠ x := fun w' hw' hx => hlater ⟨w', hw', hx⟩
  rw [applyWrites_cons, applyWrites_of_not_mem hkept, hfirst, update_self]

/-- What a list of writes leaves in a block depends on the block before only if no write
touches it. -/
theorem applyWrites_congr : ∀ {d d' : ℕ → β},
    ((∀ w ∈ ws, w.1 ≠ x) → d x = d' x) → applyWrites d ws x = applyWrites d' ws x := by
  induction ws with
  | nil =>
    intro d d' h
    exact h (by simp)
  | cons w ws ih =>
  intro d d' h
  rw [applyWrites_cons, applyWrites_cons]
  apply ih
  intro hrest
  by_cases hx : x = w.1
  · subst hx
    simp
  rw [update_of_ne hx, update_of_ne hx]
  apply h
  intro w' hw'
  rcases mem_cons.mp hw' with rfl | hw'
  · exact Ne.symm hx
  · exact hrest w' hw'

/-- Writing everything over part of the same writes is writing everything. -/
theorem applyWrites_absorb {d : ℕ → β} {part : List (ℕ × β)} (h : ∀ w ∈ part, w ∈ ws) :
    applyWrites (applyWrites d part) ws = applyWrites d ws := by
  funext x
  apply applyWrites_congr
  intro hnone
  exact applyWrites_of_not_mem fun w hw => hnone w (h w hw)

/-- An operation on the device. -/
inductive DevOp (β : Type*)
  | write (lba : ℕ) (block : β)
  | flush

/-- Durable blocks and the writes issued since the last flush. -/
structure Device (β : Type*) where
  durable : ℕ → β
  pending : List (ℕ × β)

namespace Device

variable (dev : Device β)

/-- What a read sees. -/
def view : ℕ → β := applyWrites dev.durable dev.pending

def perform : DevOp β → Device β
  | .write lba block => { dev with pending := dev.pending ++ [(lba, block)] }
  | .flush => ⟨dev.view, []⟩

/-- Perform a script to its end. -/
def exec (ops : List (DevOp β)) : Device β := ops.foldl perform dev

/-- The blocks found after a crash. -/
def CrashImage (img : ℕ → β) : Prop :=
  ∃ kept, kept.Sublist dev.pending ∧ img = applyWrites dev.durable kept

@[simp] theorem exec_nil : dev.exec [] = dev := rfl

theorem exec_append (ops ops' : List (DevOp β)) :
    dev.exec (ops ++ ops') = (dev.exec ops).exec ops' := foldl_append

theorem exec_flush (ops : List (DevOp β)) :
    dev.exec (.flush :: ops) = (⟨dev.view, []⟩ : Device β).exec ops := rfl

/-- A script of writes only adds to the pending ones. -/
theorem exec_writes (ws : List (ℕ × β)) :
    dev.exec (ws.map fun w => .write w.1 w.2) = ⟨dev.durable, dev.pending ++ ws⟩ := by
  induction ws generalizing dev with
  | nil => simp [exec]
  | cons w ws ih =>
    have hfirst : dev.exec ((w :: ws).map fun w => .write w.1 w.2) =
        (dev.perform (.write w.1 w.2)).exec (ws.map fun w => .write w.1 w.2) := rfl
    rw [hfirst, ih, perform, append_assoc]
    rfl

theorem view_writes (ws : List (ℕ × β)) :
    (⟨dev.durable, dev.pending ++ ws⟩ : Device β).view = applyWrites dev.view ws :=
  applyWrites_append _ _ _

/-- The view is an image: a crash may lose nothing. -/
theorem crashImage_view : dev.CrashImage dev.view :=
  ⟨dev.pending, .refl _, rfl⟩

theorem crashImage_flushed (d img : ℕ → β) : (⟨d, []⟩ : Device β).CrashImage img ↔ img = d := by
  constructor
  · rintro ⟨kept, hkept, rfl⟩
    rw [sublist_nil.mp hkept, applyWrites_nil]
  · rintro rfl
    exact ⟨[], .refl _, rfl⟩

/-- After more writes, an image is an earlier image with part of them. -/
theorem crashImage_writes {dev : Device β} {img : ℕ → β}
    (h : (⟨dev.durable, dev.pending ++ ws⟩ : Device β).CrashImage img) :
    ∃ before kept, dev.CrashImage before ∧ kept.Sublist ws ∧ img = applyWrites before kept := by
  obtain ⟨all, hall, rfl⟩ := h
  obtain ⟨old, new, rfl, hold, hnew⟩ := sublist_append_iff.mp hall
  exact ⟨_, new, ⟨old, hold, rfl⟩, hnew, applyWrites_append _ _ _⟩

end Device

/-- Where a script stops, and whether the operation that failed took effect. -/
structure Fault where
  index : ℕ
  landed : Bool
deriving DecidableEq

/-- How many operations of a script take effect. -/
def Fault.reach (fault : Fault) : ℕ := if fault.landed then fault.index + 1 else fault.index

/-- Perform a script up to its fault; the result says whether it ran to its end. -/
def attempt (dev : Device β) (ops : List (DevOp β)) : Option Fault → Bool × Device β
  | none => (true, dev.exec ops)
  | some fault =>
    if fault.index < ops.length then (false, dev.exec (ops.take fault.reach))
    else (true, dev.exec ops)

end GrahaOS.BlockDevice
