import Mathlib.Data.List.Basic
import Mathlib.Logic.Function.Basic

/-!
# Queues in one list

A list of values that have keys is a queue for every key: a value is put at the end of the
list, and the first value of a key is taken out.  `dropFirst key n xs` is what is left of
the values `xs` when the first `n k` of every key `k` have been taken out, in the order in
which they were put in.
-/

namespace Keyed

variable {K V : Type} [DecidableEq K] (key : V → K)

/-- The values of the key `k` in the order they were put in. -/
def queue (k : K) (xs : List V) : List V := xs.filter fun x => key x == k

/-- The list without the first value of the key `k`. -/
def pop (k : K) (xs : List V) : List V := xs.eraseP fun x => key x == k

/-- The first value of the key `k`. -/
def first? (k : K) (xs : List V) : Option V := xs.find? fun x => key x == k

/-- The list without the first `n k` values of every key `k`. -/
def dropFirst (n : K → ℕ) : List V → List V
  | [] => []
  | x :: xs =>
      if n (key x) = 0 then x :: dropFirst n xs
      else dropFirst (Function.update n (key x) (n (key x) - 1)) xs

variable {key}

theorem first?_eq_head? (k : K) (xs : List V) : first? key k xs = (queue key k xs).head? :=
  List.head?_filter.symm

/-- To take the first value of a key out is to pop the queue of this key. -/
theorem queue_pop_same (k : K) (xs : List V) :
    queue key k (pop key k xs) = (queue key k xs).tail := by
  induction xs with
  | nil => rfl
  | cons x xs ih =>
      by_cases same : key x = k
      · simp [queue, pop, same]
      · simp only [queue, pop] at ih ⊢
        rw [List.eraseP_cons_of_neg (by simpa using same),
          List.filter_cons_of_neg (by simpa using same),
          List.filter_cons_of_neg (by simpa using same), ih]

/-- To take a value of another key out leaves the queue of a key as it was. -/
theorem queue_pop_other {k k' : K} (other : k' ≠ k) (xs : List V) :
    queue key k' (pop key k xs) = queue key k' xs := by
  induction xs with
  | nil => rfl
  | cons x xs ih =>
      simp only [queue, pop] at ih ⊢
      by_cases same : key x = k
      · rw [List.eraseP_cons_of_pos (by simpa using same), List.filter_cons_of_neg]
        simpa [same] using other.symm
      · rw [List.eraseP_cons_of_neg (by simpa using same), List.filter_cons, List.filter_cons, ih]

theorem length_pop (k : K) (xs : List V) :
    (pop key k xs).length + (first? key k xs).toList.length = xs.length := by
  induction xs with
  | nil => rfl
  | cons x xs ih =>
      simp only [pop, first?] at ih ⊢
      by_cases same : key x = k
      · rw [List.eraseP_cons_of_pos (by simpa using same),
          List.find?_cons_of_pos (by simpa using same)]
        rfl
      · rw [List.eraseP_cons_of_neg (by simpa using same),
          List.find?_cons_of_neg (by simpa using same),
          List.length_cons, List.length_cons]
        omega

theorem pop_of_none {k : K} {xs : List V} (absent : first? key k xs = none) :
    pop key k xs = xs :=
  List.eraseP_of_forall_not (List.find?_eq_none.mp absent)

theorem key_of_first? {k : K} {xs : List V} {x : V} (first : first? key k xs = some x) :
    key x = k := by
  simpa using List.find?_some first

theorem perm_pop {k : K} {xs : List V} {x : V} (first : first? key k xs = some x) :
    xs.Perm (x :: pop key k xs) := by
  induction xs with
  | nil => cases first
  | cons y ys ih =>
      simp only [first?, pop] at ih first ⊢
      by_cases same : key y = k
      · rw [List.find?_cons_of_pos (by simpa using same)] at first
        obtain rfl := Option.some.inj first
        rw [List.eraseP_cons_of_pos (by simpa using same)]
      · rw [List.find?_cons_of_neg (by simpa using same)] at first
        rw [List.eraseP_cons_of_neg (by simpa using same)]
        exact ((ih first).cons y).trans (List.Perm.swap x y _)

/-- Where no key comes twice, to take the first value of a key out is to leave out all values of
this key. -/
theorem pop_of_nodup {k : K} {xs : List V} (distinct : (xs.map key).Nodup) :
    pop key k xs = xs.filter fun x => key x != k := by
  induction xs with
  | nil => rfl
  | cons x xs ih =>
      rw [List.map_cons, List.nodup_cons] at distinct
      simp only [pop] at ih ⊢
      by_cases same : key x = k
      · subst same
        rw [List.eraseP_cons_of_pos (by simp), List.filter_cons_of_neg (by simp)]
        refine (List.filter_eq_self.mpr fun y member => ?_).symm
        have other : key y ≠ key x := fun same => distinct.1 (same ▸ List.mem_map_of_mem member)
        simpa using other
      · rw [List.eraseP_cons_of_neg (by simpa using same),
          List.filter_cons_of_pos (by simpa using same), ih distinct.2]

/-! ## What is left -/

/-- After the first `n k` values of every key `k` are taken out, every queue lacks its first `n k`
values. -/
theorem queue_dropFirst (n : K → ℕ) (k : K) (xs : List V) :
    queue key k (dropFirst key n xs) = (queue key k xs).drop (n k) := by
  induction xs generalizing n with
  | nil => simp [dropFirst, queue]
  | cons x xs ih =>
      simp only [queue] at ih ⊢
      rw [dropFirst]
      by_cases zero : n (key x) = 0
      · rw [if_pos zero, List.filter_cons, List.filter_cons, ih]
        split
        · rename_i same
          rw [← eq_of_beq same, zero]
          rfl
        · rfl
      · rw [if_neg zero, ih, List.filter_cons]
        by_cases same : key x = k
        · subst same
          obtain ⟨m, is⟩ := Nat.exists_eq_succ_of_ne_zero zero
          rw [if_pos (beq_self_eq_true _), Function.update_self, is]
          rfl
        · rw [if_neg (by simpa using same), Function.update_of_ne (Ne.symm same)]

/-- A value that is put in last is still there as long as no more of its key were taken out than had
been put in. -/
theorem dropFirst_concat {n : K → ℕ} {xs : List V} {x : V}
    (enough : n (key x) ≤ (queue key (key x) xs).length) :
    dropFirst key n (xs ++ [x]) = dropFirst key n xs ++ [x] := by
  induction xs generalizing n with
  | nil =>
      have zero : n (key x) = 0 := Nat.le_zero.mp enough
      exact if_pos zero
  | cons y ys ih =>
      rw [List.cons_append, dropFirst, dropFirst]
      simp only [queue] at ih enough
      rw [List.filter_cons] at enough
      by_cases zero : n (key y) = 0
      · rw [if_pos zero, if_pos zero, List.cons_append, ih]
        split at enough
        · rename_i same
          rw [← eq_of_beq same, zero]
          exact Nat.zero_le _
        · exact enough
      · rw [if_neg zero, if_neg zero, ih]
        by_cases same : key y = key x
        · rw [if_pos (by simpa using same), List.length_cons] at enough
          rw [same, Function.update_self]
          omega
        · rw [if_neg (by simpa using same)] at enough
          rw [Function.update_of_ne (Ne.symm same)]
          exact enough

/-- To take out one more value of a key is to take out the first one that is left of it. -/
theorem dropFirst_succ (n : K → ℕ) (k : K) (xs : List V) :
    dropFirst key (Function.update n k (n k + 1)) xs = pop key k (dropFirst key n xs) := by
  induction xs generalizing n with
  | nil => rfl
  | cons x xs ih =>
      rw [dropFirst, dropFirst]
      by_cases same : key x = k
      · subst same
        rw [Function.update_self, if_neg (Nat.succ_ne_zero _), Nat.add_sub_cancel,
          Function.update_idem]
        by_cases zero : n (key x) = 0
        · rw [if_pos zero, Function.update_eq_self, pop, List.eraseP_cons_of_pos (by simp)]
        · rw [if_neg zero]
          have back := ih (Function.update n (key x) (n (key x) - 1))
          rw [Function.update_self, Function.update_idem, Nat.sub_add_cancel (by omega),
            Function.update_eq_self] at back
          rw [Function.update_eq_self, back]
      · rw [Function.update_of_ne same]
        by_cases zero : n (key x) = 0
        · rw [if_pos zero, if_pos zero, ih, pop, pop,
            List.eraseP_cons_of_neg (by simpa using same)]
        · have back := ih (Function.update n (key x) (n (key x) - 1))
          rw [Function.update_of_ne (Ne.symm same)] at back
          rw [if_neg zero, if_neg zero, Function.update_comm (Ne.symm same), back]

/-- The first value that is left of a key is the next one of its queue. -/
theorem first?_dropFirst (n : K → ℕ) (k : K) (xs : List V) :
    first? key k (dropFirst key n xs) = (queue key k xs)[n k]? := by
  rw [first?_eq_head?, queue_dropFirst, List.head?_drop]

end Keyed
