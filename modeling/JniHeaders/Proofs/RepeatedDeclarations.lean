import JniHeaders.Header.Emission
import Mathlib.Data.List.Forall2

/-!
The methods that are left when repeats of a long symbol are dropped. They are the first with
their symbols, in the order of the batch; a key that tells methods apart as well as the long
symbol does gives the same list.
-/

namespace JniHeaders.Extraction

theorem mem_of_mem_firsts {seen : List String} {methods : List NativeMethod}
    {record : NativeMethod} (h : record ∈ firsts seen methods) :
    record ∈ methods ∧ record.symbol.long ∉ seen := by
  induction methods generalizing seen with
  | nil => simp [firsts] at h
  | cons first methods ih =>
    by_cases hseen : first.symbol.long ∈ seen
    · obtain ⟨hmem, hnew⟩ := ih (by simpa [firsts, hseen] using h)
      exact ⟨List.mem_cons_of_mem _ hmem, hnew⟩
    · rcases (by simpa [firsts, hseen] using h) with rfl | h
      · exact ⟨List.mem_cons_self, hseen⟩
      · obtain ⟨hmem, hnew⟩ := ih h
        exact ⟨List.mem_cons_of_mem _ hmem, fun hold => hnew (List.mem_cons_of_mem _ hold)⟩

theorem exists_mem_firsts {seen : List String} {methods : List NativeMethod}
    {record : NativeMethod} (h : record ∈ methods) (hnew : record.symbol.long ∉ seen) :
    ∃ kept ∈ firsts seen methods, kept.symbol.long = record.symbol.long := by
  induction methods generalizing seen with
  | nil => simp at h
  | cons first methods ih =>
    by_cases hseen : first.symbol.long ∈ seen
    · have hrest : record ∈ methods := by
        rcases List.mem_cons.mp h with rfl | h
        · exact absurd hseen hnew
        · exact h
      simpa [firsts, hseen] using ih hrest hnew
    · by_cases hsame : record.symbol.long = first.symbol.long
      · exact ⟨first, by simp [firsts, hseen], hsame.symm⟩
      · have hrest : record ∈ methods := by
          rcases List.mem_cons.mp h with rfl | h
          · exact absurd rfl hsame
          · exact h
        have hunseen : record.symbol.long ∉ first.symbol.long :: seen := by simp [hsame, hnew]
        obtain ⟨kept, hkept, hlong⟩ := ih hrest hunseen
        exact ⟨kept, by simp [firsts, hseen, hkept], hlong⟩

theorem firsts_pairwise (seen : List String) (methods : List NativeMethod) :
    (firsts seen methods).Pairwise fun a b => a.symbol.long ≠ b.symbol.long := by
  induction methods generalizing seen with
  | nil => exact List.Pairwise.nil
  | cons first methods ih =>
    by_cases hseen : first.symbol.long ∈ seen
    · simpa [firsts, hseen] using ih seen
    · have hrest := ih (first.symbol.long :: seen)
      simp only [firsts, List.contains_eq_mem, hseen, decide_false, Bool.false_eq_true, if_false]
      refine List.pairwise_cons.mpr ⟨?_, hrest⟩
      intro later hlater hsame
      exact (mem_of_mem_firsts hlater).2 (hsame ▸ List.mem_cons_self)

/-- What has been seen may as well be taken out beforehand. -/
theorem firsts_filter (seen taken : List String) (methods : List NativeMethod) :
    firsts seen (methods.filter fun record => !taken.contains record.symbol.long) =
      firsts (seen ++ taken) methods := by
  induction methods generalizing seen with
  | nil => rfl
  | cons first methods ih =>
    by_cases htaken : first.symbol.long ∈ taken
    · simpa [firsts, htaken] using ih seen
    · by_cases hseen : first.symbol.long ∈ seen
      · simpa [firsts, htaken, hseen] using ih seen
      · simpa [firsts, htaken, hseen] using ih (first.symbol.long :: seen)

theorem firsts_cons (first : NativeMethod) (methods : List NativeMethod) :
    firsts [] (first :: methods) = first ::
      firsts [] (methods.filter fun record => !record.symbol.long == first.symbol.long) := by
  have hfilter := firsts_filter [] [first.symbol.long] methods
  simp only [List.contains_cons, List.contains_nil, Bool.or_false, List.nil_append] at hfilter
  rw [hfilter]
  rfl

/-- It is the same to drop repeats before or after methods are left out, if all methods of a symbol
are left out together. -/
theorem firsts_filter_of_long (keep : NativeMethod → Bool) (methods : List NativeMethod)
    (h : ∀ a ∈ methods, ∀ b ∈ methods, a.symbol.long = b.symbol.long → keep a = keep b) :
    firsts [] (methods.filter keep) = (firsts [] methods).filter keep := by
  match methods with
  | [] => rfl
  | first :: methods =>
    have hlater : ∀ record ∈ methods, record.symbol.long = first.symbol.long →
        keep record = keep first := fun record hrecord =>
      h record (List.mem_cons_of_mem _ hrecord) first List.mem_cons_self
    have hrest := firsts_filter_of_long keep
      (methods.filter fun record => !record.symbol.long == first.symbol.long)
      fun a ha b hb => h a (List.mem_cons_of_mem _ (List.mem_of_mem_filter ha))
        b (List.mem_cons_of_mem _ (List.mem_of_mem_filter hb))
    rw [firsts_cons]
    by_cases hkeep : keep first
    · rw [List.filter_cons_of_pos hkeep, List.filter_cons_of_pos hkeep, firsts_cons, ← hrest,
        List.filter_comm]
    · have hothers : methods.filter keep =
          (methods.filter fun record => !record.symbol.long == first.symbol.long).filter keep := by
        rw [List.filter_filter]
        refine List.filter_congr fun record hrecord => ?_
        by_cases hlong : record.symbol.long = first.symbol.long
        · simp [hlater record hrecord hlong, hkeep]
        · simp [hlong]
      rw [List.filter_cons_of_neg hkeep, List.filter_cons_of_neg hkeep, hothers, hrest]
termination_by methods.length
decreasing_by
  exact Nat.lt_succ_of_le (List.length_filter_le _ _)

theorem firsts_by_key {κ : Type} [BEq κ] [LawfulBEq κ] (key : NativeMethod → κ)
    (methods : List NativeMethod)
    (h : ∀ a ∈ methods, ∀ b ∈ methods, a.symbol.long = b.symbol.long ↔ key a = key b) :
    List.Forall₂ (fun k record => methods.find? (key · == k) = some record)
      (methods.map key).eraseDups (firsts [] methods) := by
  match methods with
  | [] => exact .nil
  | first :: methods =>
    have hlater : (methods.filter fun record => !record.symbol.long == first.symbol.long) =
        methods.filter fun record => !key record == key first := by
      refine List.filter_congr fun record hrecord => ?_
      have := h record (List.mem_cons_of_mem _ hrecord) first List.mem_cons_self
      simp [this]
    have hrest := firsts_by_key key (methods.filter fun record => !key record == key first)
      fun a ha b hb => h a (List.mem_cons_of_mem _ (List.mem_of_mem_filter ha))
        b (List.mem_cons_of_mem _ (List.mem_of_mem_filter hb))
    rw [firsts_cons, hlater, List.map_cons, List.eraseDups_cons, List.filter_map]
    refine .cons (by simp) (hrest.imp ?_)
    intro k record hfind
    have hkey : key record = k := by simpa using List.find?_some hfind
    have hother : key record ≠ key first := by
      simpa using (List.mem_filter.mp (List.mem_of_find?_eq_some hfind)).2
    have hskip : ¬ key first = k := fun hsame => hother (hkey.trans hsame.symm)
    rw [List.find?_filter] at hfind
    rw [List.find?_cons_of_neg (by simpa using hskip), ← hfind]
    congr 1
    funext other
    by_cases hk : key other = k
    · simp [hk, Ne.symm hskip]
    · simp [hk]
termination_by methods.length
decreasing_by
  exact Nat.lt_succ_of_le (List.length_filter_le _ _)

end JniHeaders.Extraction
