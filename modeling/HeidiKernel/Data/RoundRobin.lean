import Mathlib.Algebra.Order.Floor.Div
import Mathlib.Data.Int.ModEq
import Mathlib.Data.List.Nodup

namespace HeidiKernel.Data.RoundRobin

/-! Visiting the entries of a list in turns. A round visits up to `k` entries
from a cursor on, cyclically, and leaves the cursor behind the last of them.
The list may lose entries between the rounds. -/

variable {α : Type*}

def window (k cursor : Nat) (xs : List α) : List α :=
  (List.range (min xs.length k)).filterMap fun i =>
    xs[(cursor + i) % xs.length]?

def advance (k cursor n : Nat) : Nat := (cursor + min n k) % n

theorem mem_window_iff {k cursor : Nat} {xs : List α} {x : α} :
    x ∈ window k cursor xs ↔
      ∃ i < min xs.length k, xs[(cursor + i) % xs.length]? = some x := by
  simp [window]

theorem window_subset (k cursor : Nat) (xs : List α) :
    window k cursor xs ⊆ xs := by
  intro x hx
  obtain ⟨_, _, hget⟩ := mem_window_iff.mp hx
  exact List.mem_of_getElem? hget

theorem length_window (k cursor : Nat) (xs : List α) :
    (window k cursor xs).length = min xs.length k := by
  have hsome : ∀ i ∈ List.range (min xs.length k),
      (xs[(cursor + i) % xs.length]?).isSome := by
    intro i hi
    have hpos : 0 < xs.length := by
      have := List.mem_range.mp hi
      omega
    simp [Nat.mod_lt _ hpos]
  rw [window, List.length_filterMap_eq_countP,
    List.countP_eq_length.mpr hsome, List.length_range]

theorem advance_le {k cursor n bound : Nat} (hcursor : cursor ≤ bound)
    (hn : n ≤ bound) : advance k cursor n ≤ bound := by
  unfold advance
  rcases Nat.eq_zero_or_pos n with rfl | hpos
  · simpa using hcursor
  · exact (Nat.mod_lt _ hpos).le.trans hn

theorem offsets_nodup (cursor n k : Nat) :
    ((List.range (min n k)).map fun i => (cursor + i) % n).Nodup := by
  apply List.Nodup.map_on _ List.nodup_range
  intro i hi j hj hmod
  have hi' : i < n := by
    have := List.mem_range.mp hi
    omega
  have hj' : j < n := by
    have := List.mem_range.mp hj
    omega
  have hcancel : i % n = j % n := Nat.ModEq.add_left_cancel' cursor hmod
  rwa [Nat.mod_eq_of_lt hi', Nat.mod_eq_of_lt hj'] at hcancel

theorem window_nodup (k cursor : Nat) {xs : List α} (hxs : xs.Nodup) :
    (window k cursor xs).Nodup := by
  have hlookup := (offsets_nodup cursor xs.length k).filterMap
    (f := fun i => xs[i]?) (by
      intro i j x hi hj
      obtain ⟨hlt, _⟩ := List.getElem?_eq_some_iff.mp hi
      exact (List.getElem?_inj hlt hxs).mp (hi.trans hj.symm))
  rwa [List.filterMap_map] at hlookup

/-- A round as long as the list visits all of it, wherever it starts. -/
theorem window_perm {k : Nat} (cursor : Nat) {xs : List α} (hxs : xs.Nodup)
    (hk : xs.length ≤ k) : (window k cursor xs).Perm xs := by
  have hsub := (window_nodup k cursor hxs).subperm (window_subset k cursor xs)
  apply hsub.perm_of_length_le
  rw [length_window, Nat.min_eq_left hk]

/-- The entries of each round and the cursor it starts from. -/
structure Rounds (k m : Nat) (xs : Nat → List α) (cursor : Nat → Nat) :
    Prop where
  shrinks : ∀ j < m, (xs (j + 1)).Sublist (xs j)
  advances : ∀ j < m, cursor (j + 1) = advance k (cursor j) (xs j).length

namespace Rounds

variable {k m : Nat} {xs : Nat → List α} {cursor : Nat → Nat}

theorem sublist (h : Rounds k m xs cursor) {i j : Nat} (hij : i ≤ j)
    (hj : j ≤ m) : (xs j).Sublist (xs i) := by
  induction j, hij using Nat.le_induction with
  | base => exact List.Sublist.refl _
  | succ j hij ih =>
      exact (h.shrinks j hj).trans (ih (Nat.le_of_succ_le hj))

/-- While nothing leaves, the rounds continue each other cyclically. -/
theorem cursor_modEq (h : Rounds k m xs cursor) (start : Nat) {j n : Nat}
    (hj : start + j ≤ m) (hsame : ∀ i < j, (xs (start + i)).length = n) :
    cursor (start + j) ≡ cursor start + j * min n k [MOD n] := by
  induction j with
  | zero => simp [Nat.ModEq]
  | succ j ih =>
      have hprev := ih (by omega) fun i hi => hsame i (by omega)
      have hstep := h.advances (start + j) (by omega)
      rw [hsame j (by omega)] at hstep
      calc cursor (start + (j + 1))
          ≡ cursor (start + j) + min n k [MOD n] := by
            rw [← Nat.add_assoc, hstep]
            exact Nat.mod_modEq _ _
        _ ≡ cursor start + j * min n k + min n k [MOD n] :=
            hprev.add_right _
        _ = cursor start + (j + 1) * min n k := by
            rw [Nat.succ_mul, Nat.add_assoc]

/-- Rounds that could visit `n` entries visit each of `n` entries that stay. -/
theorem visits_block (h : Rounds k m xs cursor) {start rounds : Nat}
    (hblock : start + rounds ≤ m)
    (hsame : ∀ i < rounds, xs (start + i) = xs start)
    (hrounds : (xs start).length ≤ k * rounds) {x : α}
    (hx : x ∈ xs start) :
    ∃ j < rounds,
      x ∈ window k (cursor (start + j)) (xs (start + j)) := by
  obtain ⟨p, hget⟩ := List.mem_iff_getElem?.mp hx
  obtain ⟨hp, _⟩ := List.getElem?_eq_some_iff.mp hget
  obtain ⟨n, hn⟩ : ∃ n, (xs start).length = n := ⟨_, rfl⟩
  rw [hn] at hrounds hp
  have hnpos : 0 < n := by omega
  have hwidth : 0 < min n k := by
    have : 0 < k := Nat.pos_of_mul_pos_right (Nat.lt_of_lt_of_le hnpos hrounds)
    omega
  -- `t` entries are visited before the one at `p`.
  obtain ⟨t, ht, hmod⟩ : ∃ t < n, (cursor start + t) % n = p := by
    refine ⟨(p + (n - cursor start % n)) % n, Nat.mod_lt _ hnpos, ?_⟩
    have hlt := Nat.mod_lt (cursor start) hnpos
    rw [Nat.add_mod_mod, Nat.add_mod, ← Nat.mod_add_mod, Nat.mod_mod,
      Nat.add_mod_mod]
    have hsum : cursor start % n + (p + (n - cursor start % n)) = p + n := by
      omega
    rw [hsum, Nat.add_mod_right, Nat.mod_eq_of_lt hp]
  have hj : t / min n k < rounds := by
    apply (Nat.div_lt_iff_lt_mul hwidth).mpr
    rcases Nat.le_total n k with hle | hle
    · rw [Nat.min_eq_left hle]
      have : 0 < rounds :=
        Nat.pos_of_mul_pos_left (Nat.lt_of_lt_of_le hnpos hrounds)
      exact Nat.lt_of_lt_of_le ht (Nat.le_mul_of_pos_left n this)
    · rw [Nat.min_eq_right hle, Nat.mul_comm]
      exact Nat.lt_of_lt_of_le ht hrounds
  refine ⟨t / min n k, hj, mem_window_iff.mpr ⟨t % min n k, ?_, ?_⟩⟩
  · rw [hsame _ hj, hn]
    exact Nat.mod_lt _ hwidth
  · have hcursor := h.cursor_modEq start (j := t / min n k) (n := n)
      (by omega) fun i hi => by rw [hsame i (by omega), hn]
    have hindex : (cursor (start + t / min n k) + t % min n k) % n = p := by
      have := hcursor.add_right (t % min n k)
      rw [Nat.add_assoc, Nat.div_add_mod'] at this
      rw [this, hmod]
    rw [hsame _ hj, hn, hindex, hget]

/-- A block of rounds visits a staying entry or loses another one. -/
theorem visits_or_loses (h : Rounds k m xs cursor) (start : Nat) {rounds : Nat}
    (hblock : start + rounds ≤ m)
    (hrounds : (xs start).length ≤ k * rounds) {x : α}
    (hx : x ∈ xs start) :
    (∃ j < rounds, x ∈ window k (cursor (start + j)) (xs (start + j))) ∨
      (xs (start + rounds)).length < (xs start).length := by
  rcases Nat.lt_or_ge (xs (start + rounds)).length (xs start).length
    with hlt | hge
  · exact Or.inr hlt
  · refine Or.inl (h.visits_block hblock (fun i hi => ?_) hrounds hx)
    have hlater := h.sublist (i := start + i) (Nat.add_le_add_left hi.le _)
      hblock
    have hearlier := h.sublist (i := start) (j := start + i) (by omega)
      (by omega)
    exact hearlier.eq_of_length_le (hge.trans hlater.length_le)

/-- An entry that stays is visited while at most as many blocks of rounds pass
as entries are lost, and one more. -/
theorem visits (h : Rounds k m xs cursor) (hk : 0 < k) {x : α}
    (hx : ∀ j ≤ m, x ∈ xs j) {lost : Nat}
    (hlost : (xs 0).length ≤ (xs m).length + lost)
    (hm : (lost + 1) * ((xs 0).length ⌈/⌉ k) ≤ m) :
    ∃ j < (lost + 1) * ((xs 0).length ⌈/⌉ k),
      x ∈ window k (cursor j) (xs j) := by
  generalize hblock : (xs 0).length ⌈/⌉ k = rounds at *
  have hrounds : (xs 0).length ≤ k * rounds :=
    (ceilDiv_le_iff_le_mul hk).mp (Nat.le_of_eq hblock)
  -- After `b` blocks the entry was visited or `b` entries are lost.
  have hblocks : ∀ b, b * rounds ≤ m →
      (∃ j < b * rounds, x ∈ window k (cursor j) (xs j)) ∨
        (xs (b * rounds)).length + b ≤ (xs 0).length := by
    intro b
    induction b with
    | zero => exact fun _ => Or.inr (by simp)
    | succ b ih =>
        intro hle
        rw [Nat.succ_mul] at hle ⊢
        rcases ih (by omega) with ⟨j, hj, hvisit⟩ | hfewer
        · exact Or.inl ⟨j, by omega, hvisit⟩
        · rcases h.visits_or_loses (b * rounds) hle
            (by omega) (hx _ (by omega)) with ⟨j, hj, hvisit⟩ | hloses
          · exact Or.inl ⟨b * rounds + j, by omega, hvisit⟩
          · exact Or.inr (by omega)
  rcases hblocks (lost + 1) hm with hvisited | hfewer
  · exact hvisited
  · have := (h.sublist hm le_rfl).length_le
    omega

end Rounds

end HeidiKernel.Data.RoundRobin
