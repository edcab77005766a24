import SqlPaging.Cursor
import SqlPaging.Event

/-!
# SqlPaging — cursor stores

A store keeps cursors under names for a lifetime. Saving replaces what was there.
An expired cursor is not loaded, though it stays until it is purged.

Main results:

* `load_save_self`, `load_save_of_ne` — loading after saving.
* `load_purge` — purging changes no load.
-/

namespace SqlPaging

open Calendar

/-- Cursors under distinct names. -/
structure Store where
  /-- how long a cursor lives, in nanoseconds -/
  lifetime : Nat
  entries : Fields Cursor
  distinct : entries.Distinct

namespace Store

/-- A store that keeps nothing yet. -/
def empty (lifetime : Nat) : Store :=
  { lifetime, entries := [], distinct := by simp [Fields.Distinct, Fields.keys] }

instance : Inhabited Store := ⟨empty Cursor.lifetime⟩

/-- The number of cursors, expired ones too. -/
def size (s : Store) : Nat := s.entries.length

/-- Nothing is kept. -/
def isEmpty (s : Store) : Bool := s.entries.isEmpty

/-- Keeps a cursor under a name. -/
def save (s : Store) (name : String) (c : Cursor) : Store :=
  { s with entries := s.entries.set name c, distinct := s.distinct.set name c }

/-- Keeps a cursor under the name that its pager asks for. -/
def saveNamed (s : Store) (c : Cursor) : Except ArgumentFault (String × Store) :=
  match c.pager.cursorName with
  | some name => .ok (name, s.save name c)
  | none => .error .unnamedCursor

/-- The cursor under a name has outlived its lifetime. -/
def isExpired (s : Store) (now : DateTime) (c : Cursor) : Bool := c.expiredAt now s.lifetime

/-- The cursor under a name, unless it has expired. -/
def load? (s : Store) (name : String) (now : DateTime) : Option Cursor :=
  -- An expired cursor is hidden, and stays where it is.
  (s.entries.get? name).filter fun c => !s.isExpired now c

/-- What loading reports. -/
def loadEvents (s : Store) (name : String) (now : DateTime) : List Event :=
  match s.entries.get? name with
  | some c => if s.isExpired now c then [.expired name] else []
  | none => []

/-- The store without its expired cursors. -/
def purge (s : Store) (now : DateTime) : Store :=
  { s with
    entries := s.entries.filter fun e => !s.isExpired now e.2
    distinct := s.distinct.filter _ }

/-- The number of cursors that purging removes. -/
def purgeCount (s : Store) (now : DateTime) : Nat := s.size - (s.purge now).size

/-- What was saved is loaded under its name, until it expires. -/
theorem load_save_self (s : Store) (name : String) (c : Cursor) (now : DateTime) :
    (s.save name c).load? name now = if s.isExpired now c then none else some c := by
  cases h : s.isExpired now c <;> simp [load?, save, isExpired] at h ⊢ <;> simp [h]

/-- Saving under one name leaves what is loaded under the others. -/
theorem load_save_of_ne (s : Store) {name other : String} (c : Cursor) (now : DateTime)
    (h : other ≠ name) : (s.save name c).load? other now = s.load? other now := by
  simp [load?, save, isExpired, Fields.get?_set_of_ne _ _ h]

/-- A purge takes nothing away that could still be loaded: what was expired then
is expired now. -/
theorem load_purge (s : Store) (name : String) (earlier now : DateTime)
    (h : ∀ c, s.isExpired earlier c = true → s.isExpired now c = true) :
    (s.purge earlier).load? name now = s.load? name now := by
  have hp : (s.purge earlier).isExpired now = s.isExpired now := rfl
  -- a purge filters by the cursors, and names are distinct
  have hg : (s.purge earlier).entries.get? name =
      (s.entries.get? name).filter fun c => !s.isExpired earlier c :=
    Fields.get?_filter s.distinct (fun c => !s.isExpired earlier c) name
  simp only [load?, hp, hg]
  cases s.entries.get? name with
  | none => rfl
  | some c =>
    cases he : s.isExpired earlier c with
    | false => simp [Option.filter, he]
    -- it was purged, and has expired by now
    | true => simp [Option.filter, he, h c he]

end Store

end SqlPaging
