import Mathlib

/-!
# StitchEditor.Lib.Zipper

A linear undo history: the entries in force, oldest first, and the entries
that were taken back, next one first.
-/

/-- Entries in force and entries taken back. -/
structure Zipper (α : Type*) where
  past : List α
  future : List α

namespace Zipper

variable {α : Type*}

def empty : Zipper α := ⟨[], []⟩

/-- All entries, in the order they were recorded. -/
def entries (z : Zipper α) : List α := z.past ++ z.future

/-- A new entry replaces what was taken back. -/
def record (z : Zipper α) (entry : α) : Zipper α := ⟨z.past ++ [entry], []⟩

/-- Take the last entry back. -/
def undo (z : Zipper α) : Option (Zipper α) :=
  z.past.getLast?.map fun entry => ⟨z.past.dropLast, entry :: z.future⟩

/-- Put the next entry back in force. -/
def redo (z : Zipper α) : Option (Zipper α) :=
  z.future.head?.map fun entry => ⟨z.past ++ [entry], z.future.tail⟩

theorem undo_eq_none_iff {z : Zipper α} : z.undo = none ↔ z.past.length = 0 := by
  rw [undo, Option.map_eq_none_iff, List.getLast?_eq_none_iff, List.length_eq_zero_iff]

theorem redo_eq_none_iff {z : Zipper α} : z.redo = none ↔ z.past.length = z.entries.length := by
  rw [redo, Option.map_eq_none_iff, List.head?_eq_none_iff, entries, List.length_append,
    ← List.length_eq_zero_iff]
  omega

/-- Undo keeps the entries and moves the cursor back by one. -/
theorem undo_spec {z z' : Zipper α} (h : z.undo = some z') :
    z'.entries = z.entries ∧ z'.past.length + 1 = z.past.length := by
  obtain ⟨entry, hlast, rfl⟩ := Option.map_eq_some_iff.mp h
  obtain ⟨past, hpast⟩ := List.getLast?_eq_some_iff.mp hlast
  simp [entries, hpast]

/-- Redo keeps the entries and moves the cursor on by one. -/
theorem redo_spec {z z' : Zipper α} (h : z.redo = some z') :
    z'.entries = z.entries ∧ z'.past.length = z.past.length + 1 := by
  obtain ⟨entry, hhead, rfl⟩ := Option.map_eq_some_iff.mp h
  obtain ⟨future, hfuture⟩ := List.head?_eq_some_iff.mp hhead
  simp [entries, hfuture]

theorem take_entries (z : Zipper α) : z.entries.take z.past.length = z.past := by
  simp [entries]

end Zipper
