import Mathlib.Data.List.Basic

/-!
# Splitting and searching lists

A list that is put together from two parts can be split in one way only, if the parts
are told apart by a test (`eq_of_append_run`), or the second one begins with the first
element that passes one (`eq_of_append_cons`). What is found in a list is the first
element that passes a test, by its position (`find?_eq_some_iff_first`) or by a measure
that the list is in the order of (`find?_eq_some_iff_least`).
-/

namespace ApiBaseline

/-! ## Splitting -/

/-- The elements in front of the first one that fails a test. -/
theorem takeWhile_append_run {α : Type} {p : α → Bool} {xs zs : List α}
    (hxs : ∀ x ∈ xs, p x = true) (hzs : ∀ z ∈ zs.head?, p z = false) :
    (xs ++ zs).takeWhile p = xs := by
  rw [List.takeWhile_append_of_pos hxs]
  cases zs with
  | nil => exact List.append_nil xs
  | cons z zs => rw [List.takeWhile_cons_of_neg (by simp [hzs z rfl]), List.append_nil]

theorem eq_of_append_run {α : Type} {p : α → Bool} {xs ys zs ws : List α}
    (hxs : ∀ x ∈ xs, p x = true) (hys : ∀ y ∈ ys, p y = true)
    (hzs : ∀ z ∈ zs.head?, p z = false) (hws : ∀ w ∈ ws.head?, p w = false)
    (h : xs ++ zs = ys ++ ws) : xs = ys ∧ zs = ws := by
  have hsame : xs = ys := by
    rw [← takeWhile_append_run hxs hzs, h, takeWhile_append_run hys hws]
  subst hsame
  exact ⟨rfl, List.append_cancel_left h⟩

/-- The parts in front of and behind the first element that passes a test. -/
theorem eq_of_append_cons {α : Type} {p : α → Prop} {xs ys zs ws : List α} {a b : α}
    (hxs : ∀ x ∈ xs, ¬ p x) (hys : ∀ y ∈ ys, ¬ p y) (ha : p a) (hb : p b)
    (h : xs ++ a :: zs = ys ++ b :: ws) : xs = ys ∧ a = b ∧ zs = ws := by
  classical
  obtain ⟨hfront, hback⟩ := eq_of_append_run (p := fun x => decide (¬ p x))
    (by simpa using hxs) (by simpa using hys) (by simpa using ha) (by simpa using hb) h
  exact ⟨hfront, List.cons.inj hback⟩

theorem append_eq_append_cons {α : Type} {xs ys before after : List α} {x : α}
    (h : xs ++ ys = before ++ x :: after) :
    (∃ after', xs = before ++ x :: after')
      ∨ ∃ before', before = xs ++ before' ∧ ys = before' ++ x :: after := by
  rcases List.append_eq_append_iff.mp h with ⟨before', hbefore, hys⟩ | ⟨more, hxs, hafter⟩
  · exact Or.inr ⟨before', hbefore, hys⟩
  · cases more with
    | nil => exact Or.inr ⟨[], by rw [hxs, List.append_nil, List.append_nil], hafter.symm⟩
    | cons y more =>
        obtain ⟨rfl, -⟩ := List.cons.inj hafter
        exact Or.inl ⟨more, hxs⟩

/-! ## Searching -/

theorem find?_eq_some_iff_first {α : Type} {p : α → Bool} {xs : List α} {a : α} :
    xs.find? p = some a
      ↔ ∃ i : Nat, xs[i]? = some a ∧ p a = true ∧ ∀ j < i, ∀ b, xs[j]? = some b → p b = false := by
  rw [List.find?_eq_some_iff_getElem]
  constructor
  · rintro ⟨hp, i, hi, rfl, hfirst⟩
    refine ⟨i, List.getElem?_eq_getElem hi, hp, fun j hj b hb => ?_⟩
    obtain ⟨hlt, rfl⟩ := List.getElem?_eq_some_iff.mp hb
    simpa using hfirst j hj
  · rintro ⟨i, hi, hp, hfirst⟩
    obtain ⟨hlt, rfl⟩ := List.getElem?_eq_some_iff.mp hi
    refine ⟨hp, i, hlt, rfl, fun j hj => ?_⟩
    simpa using hfirst j hj _ (List.getElem?_eq_getElem (Nat.lt_trans hj hlt))

/-- In a list in the order of a measure, what is found is the least element that
passes the test. -/
theorem find?_eq_some_iff_least {α : Type} {p : α → Bool} {measure : α → Nat} {xs : List α}
    (hsorted : xs.Pairwise fun x y => measure x < measure y) {a : α} :
    xs.find? p = some a
      ↔ a ∈ xs ∧ p a = true ∧ ∀ b ∈ xs, measure b < measure a → p b = false := by
  induction xs with
  | nil => simp
  | cons x xs ih =>
      obtain ⟨hx, hxs⟩ := List.pairwise_cons.mp hsorted
      cases hpx : p x with
      | true =>
          rw [List.find?_cons_of_pos hpx, Option.some.injEq]
          constructor
          · rintro rfl
            refine ⟨List.mem_cons_self, hpx, fun b hb hless => ?_⟩
            rcases List.mem_cons.mp hb with rfl | hb
            · exact absurd hless (Nat.lt_irrefl _)
            · exact absurd hless (Nat.lt_asymm (hx b hb))
          · rintro ⟨ha, -, hleast⟩
            rcases List.mem_cons.mp ha with rfl | ha
            · rfl
            · simp [hleast x List.mem_cons_self (hx a ha)] at hpx
      | false =>
          rw [List.find?_cons_of_neg (by simp [hpx]), ih hxs]
          constructor
          · rintro ⟨ha, hpa, hleast⟩
            exact ⟨List.mem_cons_of_mem x ha, hpa, List.forall_mem_cons.mpr ⟨fun _ => hpx, hleast⟩⟩
          · rintro ⟨ha, hpa, hleast⟩
            have hne : a ≠ x := fun h => by simp [h, hpx] at hpa
            exact ⟨(List.mem_cons.mp ha).resolve_left hne, hpa,
              fun b hb => hleast b (List.mem_cons_of_mem x hb)⟩

/-- The only element that can pass a test is found if and only if it does. -/
theorem find?_eq_some_of_unique {α : Type} {p : α → Bool} {xs : List α} {a : α}
    (hunique : ∀ b ∈ xs, p b = true → b = a) : xs.find? p = some a ↔ a ∈ xs ∧ p a = true := by
  constructor
  · exact fun h => ⟨List.mem_of_find?_eq_some h, List.find?_some h⟩
  · rintro ⟨ha, hpa⟩
    obtain ⟨b, hb⟩ := Option.isSome_iff_exists.mp (List.find?_isSome.mpr ⟨a, ha, hpa⟩)
    rw [hb, hunique b (List.mem_of_find?_eq_some hb) (List.find?_some hb)]

theorem any_congr_of_mem {α : Type} {p q : α → Bool} {xs : List α}
    (h : ∀ x ∈ xs, p x = q x) : xs.any p = xs.any q := by
  simpa [List.any_map, Function.comp_def] using congrArg (·.any id) (List.map_congr_left h)

theorem findSome?_congr_of_mem {α β : Type} {g k : α → Option β} {xs : List α}
    (h : ∀ x ∈ xs, g x = k x) : xs.findSome? g = xs.findSome? k := by
  rw [← List.head?_filterMap, ← List.head?_filterMap, List.filterMap_congr h]

theorem lookup_flatMap {α β : Type} {g : α → List (Nat × β)} {k : Nat} (xs : List α) :
    (xs.flatMap g).lookup k = xs.findSome? fun x => (g x).lookup k := by
  induction xs with
  | nil => rfl
  | cons x xs ih =>
      rw [List.flatMap_cons, List.lookup_append, ih, List.findSome?_cons]
      cases (g x).lookup k <;> rfl

theorem lookup_map_const {α β : Type} {f : α → Nat} {b : β} {k : Nat} (xs : List α) :
    (xs.map fun x => (f x, b)).lookup k = if xs.any (f · == k) then some b else none := by
  induction xs with
  | nil => rfl
  | cons x xs ih =>
      rw [List.map_cons, List.lookup_cons, ih, List.any_cons, BEq.comm]
      cases f x == k <;> rfl

theorem findSome?_ite {α : Type} {p : α → Bool} (xs : List α) :
    (xs.findSome? fun x => if p x then some x else none) = xs.find? p := by
  induction xs with
  | nil => rfl
  | cons x xs ih =>
      rw [List.findSome?_cons, List.find?_cons, ih]
      cases p x <;> rfl

/-- Entries under one key can be left out when another key is looked up. -/
theorem lookup_filter_ne {α β : Type} [BEq α] [LawfulBEq α] {k l : α} (h : k ≠ l)
    (xs : List (α × β)) : (xs.filter (·.1 != l)).lookup k = xs.lookup k := by
  induction xs with
  | nil => rfl
  | cons x xs ih =>
      obtain ⟨key, b⟩ := x
      by_cases hkey : key = l
      · subst hkey
        have hne : (k == key) = false := beq_false_of_ne h
        rw [List.filter_cons_of_neg (by simp), ih, List.lookup_cons, hne]
      · rw [List.filter_cons_of_pos (by simpa using hkey), List.lookup_cons, List.lookup_cons, ih]

theorem pairwise_zipIdx {α : Type} (xs : List α) : xs.zipIdx.Pairwise fun p q => p.2 < q.2 := by
  rw [← List.pairwise_map, List.zipIdx_map_snd]
  exact List.pairwise_lt_range'

end ApiBaseline
