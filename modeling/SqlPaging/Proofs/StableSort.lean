/-!
# SqlPaging — stable sorting

A stable sort keeps the order of elements that are tied. This determines its result: a
sorted list in which tied elements stand as in another list is what that list is sorted to.
So an element that is added at the end of a list goes behind all that it does not come
before.

Main results:

* `eq_of_filter_tied` — sorted lists with the same tied elements are the same.
* `mergeSort_concat` — where the last element of a list goes.
-/

namespace SqlPaging

variable {α : Type} {le : α → α → Bool}

/-- Neither of two elements comes strictly before the other one. -/
def tied (le : α → α → Bool) (a b : α) : Bool := le a b && le b a

/-- Two sorted lists are the same if they have the same members in the same order in each
group of ties. -/
theorem eq_of_filter_tied (hrefl : ∀ a, le a a = true) {l m : List α}
    (hl : l.Pairwise fun a b => le a b = true) (hm : m.Pairwise fun a b => le a b = true)
    (h : ∀ a, l.filter (tied le a) = m.filter (tied le a)) : l = m := by
  have hself : ∀ a, tied le a a = true := by
    intro a
    rw [tied, hrefl a]
    rfl
  -- an element is tied with itself, so that both lists have the same ones
  have hmem : ∀ {l m : List α}, (∀ a, l.filter (tied le a) = m.filter (tied le a)) →
      ∀ a ∈ l, a ∈ m := by
    intro l m h a ha
    have hown : a ∈ l.filter (tied le a) := List.mem_filter.mpr ⟨ha, hself a⟩
    rw [h a] at hown
    exact (List.mem_filter.mp hown).1
  induction l generalizing m with
  | nil =>
    cases m with
    | nil => rfl
    | cons b m => cases hmem (fun a => (h a).symm) b List.mem_cons_self
  | cons a l ih =>
    cases m with
    | nil => cases hmem h a List.mem_cons_self
    | cons b m =>
      rw [List.pairwise_cons] at hl hm
      -- each of the two first elements comes before the other one, or is it
      have hab : le a b = true := by
        rcases List.mem_cons.mp (hmem (fun a => (h a).symm) b List.mem_cons_self) with rfl | hb
        · exact hrefl b
        · exact hl.1 b hb
      have hba : le b a = true := by
        rcases List.mem_cons.mp (hmem h a List.mem_cons_self) with rfl | ha
        · exact hrefl a
        · exact hm.1 a ha
      have hboth : tied le a b = true := by rw [tied, hab, hba]; rfl
      have hfirst := h a
      rw [List.filter_cons, List.filter_cons, if_pos (hself a), if_pos hboth, List.cons.injEq]
        at hfirst
      obtain ⟨rfl, -⟩ := hfirst
      congr 1
      refine ih hl.2 hm.2 ?_
      intro c
      have hc := h c
      rw [List.filter_cons, List.filter_cons] at hc
      split at hc
      · exact (List.cons.inj hc).2
      · exact hc

section

variable (htrans : ∀ a b c, le a b = true → le b c = true → le a c = true)
  (htotal : ∀ a b, (le a b || le b a) = true)

include htrans htotal

/-- Sorting keeps the order of tied elements. -/
theorem filter_tied_mergeSort (l : List α) (a : α) :
    (l.mergeSort le).filter (tied le a) = l.filter (tied le a) := by
  have htied : (l.filter (tied le a)).Pairwise fun b c => le b c = true := by
    refine List.pairwise_filter.mpr (List.pairwise_of_forall ?_)
    intro b c hb hc
    rw [tied, Bool.and_eq_true] at hb hc
    exact htrans b a c hb.2 hc.1
  -- sorting keeps sorted sublists, and the ties are one
  have hsub := (List.sublist_mergeSort htrans htotal htied List.filter_sublist).filter (tied le a)
  rw [List.filter_filter] at hsub
  simp only [Bool.and_self] at hsub
  refine (hsub.eq_of_length ?_).symm
  exact ((List.mergeSort_perm l le).filter _).length_eq.symm

/-- The last element of a list goes behind the elements that it does not come before. -/
theorem mergeSort_concat {l front back : List α} {e : α} (h : l.mergeSort le = front ++ back)
    (hfront : ∀ b ∈ front, le b e = true) (hback : ∀ b ∈ back, le b e = false) :
    (l ++ [e]).mergeSort le = front ++ e :: back := by
  have hrefl : ∀ a, le a a = true := by
    intro a
    simpa using htotal a a
  -- one of the two orders holds, and the other one does not
  have hbehind : ∀ b ∈ back, le e b = true := by
    intro b hb
    have hor := htotal e b
    rwa [hback b hb, Bool.or_false] at hor
  have hsorted := List.pairwise_mergeSort htrans htotal l
  rw [h, List.pairwise_append] at hsorted
  refine eq_of_filter_tied hrefl (List.pairwise_mergeSort htrans htotal _) ?_ ?_
  · rw [List.pairwise_append, List.pairwise_cons]
    refine ⟨hsorted.1, ⟨hbehind, hsorted.2.1⟩, ?_⟩
    intro b hb c hc
    rcases List.mem_cons.mp hc with rfl | hc
    · exact hfront b hb
    · exact hsorted.2.2 b hb c hc
  · intro a
    have hl := filter_tied_mergeSort htrans htotal l a
    rw [h, List.filter_append] at hl
    rw [filter_tied_mergeSort htrans htotal, List.filter_append, ← hl, List.filter_append,
      List.append_assoc]
    congr 1
    cases htie : tied le a e with
    | false => simp [htie]
    | true =>
      -- what stands behind the element is not tied with it
      have hnone : back.filter (tied le a) = [] := by
        rw [List.filter_eq_nil_iff]
        intro b hb htied
        rw [tied, Bool.and_eq_true] at htie htied
        have hle := htrans b a e htied.2 htie.1
        rw [hback b hb] at hle
        cases hle
      simp [htie, hnone]

end

end SqlPaging
