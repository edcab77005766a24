import SqlPaging.Cursor.Store
import SqlPaging.Proofs.Calendar.Instants

/-!
# SqlPaging — the lifetime of stored cursors

A cursor expires at the moment that lies its lifetime after it was made, and stays
expired from then on. Hence what a purge takes out of a store would not be loaded at any
later time anyway, and a store that is purged now and then cannot be told from one that
never is, but for its size.

A store is asked for something at the times that its clock shows, which never go back
(`InTurn`). What it answers to a load is read off the history alone: the last cursor that
was saved under the name, unless it has expired (`load?_after`).

Main results:

* `Cursor.expiredAt_iff` — when a cursor has expired.
* `Store.load?_after` — what is loaded after a history.
* `Store.loads_withoutPurges` — purging changes no load.
* `Store.purging_unseen` — all of it, with what a purge takes out.
-/

namespace SqlPaging

open Calendar

/-! ## Expiry -/

namespace Cursor

variable {c : Cursor} {now later : DateTime} {lifetime : Nat} {deadline : Instant}

/-- A cursor has expired at the moment that lies its lifetime after it was made, and at
any later one. -/
theorem expiredAt_iff (h : c.createdAt.instant.Follows lifetime deadline) :
    c.expiredAt now lifetime = true ↔ now.instant.atOrAfter deadline = true := by
  unfold expiredAt
  constructor
  · intro hexpired
    split at hexpired
    · next deadline' hlater =>
      -- no other moment follows
      obtain rfl := (DateTime.later?_eq_some_iff.mp hlater).1.unique h
      exact hexpired
    · cases hexpired
  · intro hnow
    -- a moment that some time of the calendar has reached lies in the calendar itself
    have hreached : deadline.seconds < DateTime.endOfCalendar := by
      have := now.instant_bounds
      rw [Instant.atOrAfter_iff] at hnow
      omega
    rw [DateTime.later?_eq_some_iff.mpr ⟨h, hreached⟩]
    exact hnow

theorem expiredAt_mono (h : c.expiredAt now lifetime = true)
    (hlater : later.instant.atOrAfter now.instant = true) : c.expiredAt later lifetime = true := by
  obtain ⟨deadline, hfollows, -⟩ := c.createdAt.exists_follows lifetime
  rw [expiredAt_iff hfollows] at h ⊢
  exact Instant.atOrAfter_trans hlater h

/-- A lifetime that ends after the last date never ends. -/
theorem expiredAt_of_beyond (h : c.createdAt.instant.Follows lifetime deadline)
    (hend : DateTime.endOfCalendar ≤ deadline.seconds) : c.expiredAt now lifetime = false := by
  rw [Bool.eq_false_iff, ne_eq, expiredAt_iff h, Instant.atOrAfter_iff]
  have := now.instant_bounds
  omega

/-- The longest lifetime that has a signed form: as many milliseconds as a 64-bit integer
counts. -/
def longestLifetime : Nat := 9223372036854775807 * 1000000

/-- No calendar holds the end of a longer one. -/
theorem expiredAt_of_overlong (h : longestLifetime < lifetime) :
    c.expiredAt now lifetime = false := by
  obtain ⟨deadline, hfollows, -⟩ := c.createdAt.exists_follows lifetime
  rw [Bool.eq_false_iff, ne_eq, expiredAt_iff hfollows, Instant.atOrAfter_iff]
  -- more time elapses than lies between any two dates of the calendar
  have helapsed := hfollows.elapsed
  have hcreated := c.createdAt.instant_bounds
  have hreached := now.instant_bounds
  simp only [longestLifetime, Instant.elapsed, billion, daySeconds, DateTime.endOfCalendar] at *
  omega

end Cursor

namespace Store

variable {s s' : Store} {now later : DateTime} {name : String}

/-! ## Histories -/

/-- What a store is asked for. -/
inductive Action where
  | save (name : String) (c : Cursor)
  | load (name : String)
  | purge

/-- What a store is asked for, each at the time that its clock shows. -/
abbrev History := List (DateTime × Action)

/-- The clock never goes back. -/
def InTurn (h : History) : Prop := h.Pairwise fun a b => b.1.instant.atOrAfter a.1.instant = true

instance (h : History) : Decidable (InTurn h) := inferInstanceAs (Decidable (List.Pairwise _ h))

/-- In a history that is in turn, an action comes at or after all that precede it. -/
theorem atOrAfter_of_inTurn {before rest : History} {x : DateTime × Action}
    (h : InTurn (before ++ x :: rest)) :
    ∀ y ∈ before, x.1.instant.atOrAfter y.1.instant = true := fun y hy =>
  (List.pairwise_append.mp h).2.2 y hy x List.mem_cons_self

/-- The store that an action leaves. -/
def act (s : Store) (now : DateTime) : Action → Store
  | .save name c => s.save name c
  | .load _ => s
  | .purge => s.purge now

/-- The store that a history leaves. -/
def after (s : Store) : History → Store
  | [] => s
  | (now, a) :: h => (s.act now a).after h

/-- What is loaded in the course of a history. -/
def loads (s : Store) : History → List (Option Cursor)
  | [] => []
  | (now, a) :: h =>
    (match a with
      | .load name => [s.load? name now]
      | _ => []) ++ (s.act now a).loads h

/-- The cursor that an action saves under a name. -/
def Action.saved? (name : String) : Action → Option Cursor
  | .save other c => if other = name then some c else none
  | _ => none

/-- The cursor that was saved last under a name. -/
def lastSaved? (name : String) : History → Option Cursor
  | [] => none
  | (_, a) :: h => (lastSaved? name h).or (a.saved? name)

/-- The action is no purge. -/
def Action.keeps : Action → Bool
  | .purge => false
  | _ => true

/-- A history in which nothing is purged. -/
def withoutPurges (h : History) : History := h.filter (·.2.keeps)

/-! ## One action -/

theorem lifetime_act (s : Store) (now : DateTime) (a : Action) :
    (s.act now a).lifetime = s.lifetime := by
  cases a <;> rfl

/-- Purging is not seen by those who load later. -/
theorem load?_purge (hlater : later.instant.atOrAfter now.instant = true) :
    (s.purge now).load? name later = s.load? name later :=
  load_purge s name now later fun _ h => Cursor.expiredAt_mono h hlater

/-- After an action, what it saved is loaded, or what could be loaded before. -/
theorem load?_act (a : Action) (hlater : later.instant.atOrAfter now.instant = true) :
    (s.act now a).load? name later =
      ((a.saved? name).or (s.entries.get? name)).filter fun c => !s.isExpired later c := by
  -- only a save under the name itself hides what was there
  cases a with
  | save other c =>
    by_cases hname : other = name
    · subst hname
      simp [act, Action.saved?, load?, save, isExpired]
    · rw [act, load_save_of_ne s c later (Ne.symm hname), Action.saved?, if_neg hname]
      rfl
  | load other => rfl
  | purge => exact load?_purge hlater

/-! ## All actions of a history -/

/-- After a history, what was saved last is loaded, or else what there was before it;
unless it has expired. -/
theorem load?_after {h : History} (hlater : ∀ x ∈ h, later.instant.atOrAfter x.1.instant = true) :
    (s.after h).load? name later =
      ((lastSaved? name h).or (s.entries.get? name)).filter
        fun c => !c.expiredAt later s.lifetime := by
  -- the induction is on the actions: a later one hides what an earlier one saved
  induction h generalizing s with
  | nil => rfl
  | cons x h ih =>
    obtain ⟨now, a⟩ := x
    obtain ⟨hnow, hrest⟩ := List.forall_mem_cons.mp hlater
    rw [after, ih hrest, lastSaved?, lifetime_act]
    cases lastSaved? name h with
    | some c => rfl
    | none =>
      -- nothing is saved later, so what this action leaves is loaded
      have hact : (s.act now a).load? name later =
          ((a.saved? name).or (s.entries.get? name)).filter fun c => !s.isExpired later c :=
        load?_act a hnow
      rw [load?] at hact
      simpa only [Option.none_or, isExpired, lifetime_act] using hact

/-- Two stores from which the same is loaded at the times of a history answer alike, if
only one of them is purged. -/
theorem loads_congr {h : History} (hturn : InTurn h) (hlife : s.lifetime = s'.lifetime)
    (hsame : ∀ x ∈ h, ∀ name, s.load? name x.1 = s'.load? name x.1) :
    s.loads h = s'.loads (withoutPurges h) := by
  -- the stores differ in what has expired; what holds of them is kept by every action
  induction h generalizing s s' with
  | nil => rfl
  | cons x h ih =>
    obtain ⟨now, a⟩ := x
    obtain ⟨hlater, hturn'⟩ : (∀ x ∈ h, x.1.instant.atOrAfter now.instant = true) ∧ InTurn h :=
      List.pairwise_cons.mp hturn
    obtain ⟨hnow, hrest⟩ := List.forall_mem_cons.mp hsame
    have hexpired : ∀ later c, s.isExpired later c = s'.isExpired later c := by
      intro later c
      rw [isExpired, isExpired, hlife]
    cases a with
    | save name c =>
      -- what is saved is the same in both, and covers what was there
      have hsaved : ∀ x ∈ h, ∀ other,
          (s.save name c).load? other x.1 = (s'.save name c).load? other x.1 := by
        intro x hx other
        by_cases hname : other = name
        · subst hname
          rw [load_save_self, load_save_self, hexpired]
        · rw [load_save_of_ne s c _ hname, load_save_of_ne s' c _ hname, hrest x hx]
      have hlife' : (s.save name c).lifetime = (s'.save name c).lifetime := hlife
      exact ih hturn' hlife' hsaved
    | load name =>
      -- a load answers alike and changes neither store
      have hloads := ih hturn' hlife hrest
      show s.load? name now :: s.loads h = s'.load? name now :: s'.loads (withoutPurges h)
      rw [hnow, hloads]
    | purge =>
      -- only the first store is purged, which no later load sees
      have hpurged : ∀ x ∈ h, ∀ name, (s.purge now).load? name x.1 = s'.load? name x.1 := by
        intro x hx name
        rw [load?_purge (hlater x hx), hrest x hx]
      exact ih (s := s.purge now) hturn' hlife hpurged

/-- Purging changes no load. -/
theorem loads_withoutPurges {h : History} (hturn : InTurn h) :
    s.loads h = s.loads (withoutPurges h) :=
  loads_congr hturn rfl fun _ _ _ => rfl

/-! ## What a purge takes out -/

/-- The names under which an expired cursor is kept. -/
def expiredNames (s : Store) (now : DateTime) : List String :=
  s.entries.keys.filter fun name => (s.entries.get? name).any (s.isExpired now)

/-- Each entry that has expired counts for one name. -/
theorem length_expiredNames (s : Store) (now : DateTime) :
    (s.expiredNames now).length = s.entries.countP fun e => s.isExpired now e.2 := by
  -- names are distinct, so that each one is looked up in its own entry
  rw [expiredNames, ← List.countP_eq_length_filter, Fields.keys, List.countP_map]
  apply List.countP_congr
  intro e he
  rw [Function.comp_apply, Fields.get?_of_mem s.distinct he, Option.any_some]

/-- A purge takes away the entries that have expired, and nothing else. -/
theorem size_purge (s : Store) (now : DateTime) :
    (s.purge now).size + (s.expiredNames now).length = s.size := by
  -- every entry is expired or kept
  have hsplit := List.length_eq_countP_add_countP (fun e => s.isExpired now e.2) (l := s.entries)
  have hkept : (s.purge now).size = s.entries.countP fun e => !s.isExpired now e.2 :=
    List.countP_eq_length_filter.symm
  rw [length_expiredNames, hkept, size, hsplit, Nat.add_comm]
  simp only [Bool.not_eq_true, Bool.decide_eq_false]

/-- A purge takes out the expired cursors and counts them. -/
theorem purgeCount_eq (s : Store) (now : DateTime) :
    s.purgeCount now = (s.expiredNames now).length := by
  have := s.size_purge now
  rw [purgeCount]
  omega

/-! ## The store as its users see it -/

/-- In the course of a history that starts with an empty store, a load gives the cursor
that was saved last under the name, unless it has expired; leaving purges out or putting
others in changes no load; and a purge takes out just the names with an expired cursor,
and says how many. A cursor has expired at and after the moment that lies its lifetime
after it was made, and never if that moment lies beyond the calendar. -/
theorem purging_unseen (lifetime : Nat) (h : History) (hturn : InTurn h) :
    (∀ before now name rest, h = before ++ (now, .load name) :: rest →
      ((empty lifetime).after before).load? name now =
        (lastSaved? name before).filter fun c => !c.expiredAt now lifetime) ∧
    (∀ h', InTurn h' → withoutPurges h' = withoutPurges h →
      (empty lifetime).loads h' = (empty lifetime).loads h) ∧
    (∀ before now rest, h = before ++ (now, .purge) :: rest →
      let s := (empty lifetime).after before
      s.purgeCount now = (s.expiredNames now).length ∧
        (s.purge now).size + s.purgeCount now = s.size) ∧
    ∀ (c : Cursor) (now : DateTime), ∃ deadline,
      c.createdAt.instant.Follows lifetime deadline ∧
      (c.expiredAt now lifetime = true ↔ now.instant.atOrAfter deadline = true) ∧
      (DateTime.endOfCalendar ≤ deadline.seconds ∨ Cursor.longestLifetime < lifetime →
        c.expiredAt now lifetime = false) := by
  refine ⟨?_, ?_, ?_, fun c now => ?_⟩
  · rintro before now name rest rfl
    -- before the history, nothing is kept under any name
    have hnone : (empty lifetime).entries.get? name = none := rfl
    rw [load?_after (atOrAfter_of_inTurn hturn), hnone, Option.or_none]
    rfl
  · -- both histories load what the one without purges does
    intro h' hturn' hsame
    rw [loads_withoutPurges hturn', loads_withoutPurges hturn, hsame]
  · rintro before now rest -
    intro s
    rw [s.purgeCount_eq now]
    exact ⟨rfl, s.size_purge now⟩
  · obtain ⟨deadline, hfollows, -⟩ := c.createdAt.exists_follows lifetime
    exact ⟨deadline, hfollows, Cursor.expiredAt_iff hfollows, fun h =>
      h.elim (Cursor.expiredAt_of_beyond hfollows) Cursor.expiredAt_of_overlong⟩

/-- A time of one morning. -/
def morning (minute : Fin 60) : DateTime :=
  ⟨⟨2024, 2, 29, by decide⟩, ⟨10, minute, 0, 0, by have := minute.isLt; unfold billion; omega⟩⟩

/-- The cursor of a row that was made at a time. -/
def madeAt (id : Int64) (now : DateTime) : Cursor :=
  { pager := Pager.make 2 10 0 false (some "feed")
    values := [("id", .int id)]
    eachSideSnapshot := none
    direction := .next
    inclusive := true
    createdAt := now }

/-- A cursor that has expired is purged, and another one takes its place. -/
def replaced : History :=
  [(morning 0, .save "feed" (madeAt 7 (morning 0))), (morning 2, .load "feed"),
    (morning 2, .purge), (morning 3, .save "feed" (madeAt 9 (morning 3))),
    (morning 3, .load "feed")]

/-- A lifetime of a minute. -/
def minute : Nat := 60 * billion

/-- With a lifetime of a minute, the first load gives nothing, the purge takes one cursor
out, and the second load gives the cursor that took its place. -/
theorem purging_unseen_of_replaced :
    InTurn replaced ∧
    (empty minute).loads replaced = [none, some (madeAt 9 (morning 3))] ∧
    (empty minute).loads (withoutPurges replaced) = (empty minute).loads replaced ∧
    ((empty minute).after (replaced.take 2)).purgeCount (morning 2) = 1 := by
  have hturn : InTurn replaced := by decide
  have hturn' : InTurn (withoutPurges replaced) := by decide
  obtain ⟨hload, hsame, hpurge, -⟩ := purging_unseen minute replaced hturn
  refine ⟨hturn, ?_, hsame _ hturn' rfl, (hpurge (replaced.take 2) _ _ rfl).1⟩
  -- the first cursor has expired when it is asked for, the one that replaced it has not
  have hfirst := hload (replaced.take 1) _ _ _ rfl
  have hsecond := hload (replaced.take 4) _ _ _ rfl
  calc (empty minute).loads replaced
      = [((empty minute).after (replaced.take 1)).load? "feed" (morning 2),
          ((empty minute).after (replaced.take 4)).load? "feed" (morning 3)] := rfl
    _ = [none, some (madeAt 9 (morning 3))] := by
      rw [hfirst, hsecond]
      rfl

end Store

end SqlPaging
