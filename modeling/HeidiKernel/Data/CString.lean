import HeidiKernel.Data.Bytes
import Mathlib.Data.List.TakeWhile

namespace HeidiKernel.Data.CString

/-! C strings in buffers of bytes. A source is read as if a NUL followed its
last byte, as it does in a string literal or behind `c_str()`. -/

/-- The string a buffer holds: its bytes up to the first NUL. -/
def text (buffer : Bytes) : Bytes := buffer.takeWhile (· ≠ 0)

def strncpy : Nat → Bytes → Bytes → Bytes
  | 0, dst, _ => dst
  | _ + 1, [], _ => []
  | n + 1, _ :: dst, src =>
      src.headD 0 :: strncpy n dst (if src.headD 0 = 0 then [] else src.tail)

/-- `strncmp(a, b, n) == 0` -/
def strncmpEq : Nat → Bytes → Bytes → Bool
  | 0, _, _ => true
  | n + 1, a, b =>
      if a.headD 0 = b.headD 0 then
        if a.headD 0 = 0 then true else strncmpEq n a.tail b.tail
      else
        false

@[simp] theorem text_nil : text [] = [] := rfl

theorem text_cons (x : UInt8) (xs : Bytes) :
    text (x :: xs) = if x = 0 then [] else x :: text xs := by
  by_cases h : x = 0 <;> simp [text, h]

theorem text_cases (src : Bytes) :
    (src.headD 0 = 0 ∧ text src = []) ∨
      (src.headD 0 ≠ 0 ∧ text src = src.headD 0 :: text src.tail) := by
  cases src with
  | nil => exact .inl ⟨rfl, rfl⟩
  | cons x xs =>
      rw [text_cons]
      by_cases h : x = 0 <;> simp [h]

theorem text_ne_zero {buffer : Bytes} {x : UInt8} (h : x ∈ text buffer) :
    x ≠ 0 := by
  simpa using List.mem_takeWhile_imp h

theorem text_append_zero {front : Bytes} (h : ∀ x ∈ front, x ≠ 0)
    (rest : Bytes) : text (front ++ 0 :: rest) = front := by
  induction front with
  | nil => rfl
  | cons x front ih =>
      have hx : x ≠ 0 := h x (by simp)
      rw [List.cons_append, text_cons, if_neg hx,
        ih fun y hy => h y (by simp [hy])]

theorem length_text_le (buffer : Bytes) :
    (text buffer).length ≤ buffer.length :=
  (List.takeWhile_sublist _).length_le

/-- Copying writes the string, cut after `n` bytes, and fills up with NULs. -/
theorem strncpy_eq {n : Nat} {dst : Bytes} (h : n ≤ dst.length) (src : Bytes) :
    strncpy n dst src = (text src).take n ++
      List.replicate (n - (text src).length) 0 ++ dst.drop n := by
  induction n generalizing dst src with
  | zero => simp [strncpy]
  | succ n ih =>
      cases dst with
      | nil => simp at h
      | cons y dst =>
          have hlength : n ≤ dst.length := Nat.le_of_succ_le_succ h
          rw [strncpy]
          rcases text_cases src with ⟨hend, htext⟩ | ⟨hmore, htext⟩
          · rw [hend, if_pos rfl, ih hlength, htext]
            simp [List.replicate_succ]
          · rw [if_neg hmore, ih hlength, htext]
            simp

theorem length_strncpy {n : Nat} {dst : Bytes} (h : n ≤ dst.length)
    (src : Bytes) : (strncpy n dst src).length = dst.length := by
  rw [strncpy_eq h]
  simp
  omega

/-- A copy closed by a NUL holds the string, cut after `n` bytes. -/
theorem text_strncpy_set {n : Nat} {dst : Bytes} (h : n < dst.length)
    (src : Bytes) :
    text ((strncpy n dst src).set n 0) = (text src).take n := by
  rw [strncpy_eq (Nat.le_of_lt h)]
  have hnonzero : ∀ x ∈ (text src).take n, x ≠ 0 := fun x hx =>
    text_ne_zero (List.mem_of_mem_take hx)
  obtain ⟨y, rest, hdrop⟩ : ∃ y rest, dst.drop n = y :: rest :=
    List.exists_cons_of_ne_nil (by simpa using h)
  have hwritten : ((text src).take n ++
      List.replicate (n - (text src).length) (0 : UInt8)).length = n := by
    simp
    omega
  rw [hdrop, List.set_append_right _ _ (Nat.le_of_eq hwritten), hwritten, Nat.sub_self,
    List.set_cons_zero]
  cases hpad : n - (text src).length with
  | zero =>
      rw [List.replicate_zero, List.append_nil]
      exact text_append_zero hnonzero rest
  | succ pad =>
      rw [List.replicate_succ, List.append_assoc, List.cons_append]
      exact text_append_zero hnonzero _

theorem strncmpEq_iff {n : Nat} {a b : Bytes} :
    strncmpEq n a b = true ↔ (text a).take n = (text b).take n := by
  induction n generalizing a b with
  | zero => simp [strncmpEq]
  | succ n ih =>
      rw [strncmpEq]
      rcases text_cases a with ⟨ha, hatext⟩ | ⟨ha, hatext⟩ <;>
        rcases text_cases b with ⟨hb, hbtext⟩ | ⟨hb, hbtext⟩
      · rw [ha, hb, if_pos rfl, if_pos rfl, hatext, hbtext]
        simp
      · rw [ha, if_neg (Ne.symm hb), hatext, hbtext]
        simp
      · rw [hb, if_neg ha, hatext, hbtext]
        simp
      · by_cases hsame : a.headD 0 = b.headD 0
        · rw [if_pos hsame, if_neg ha, ih, hatext, hbtext, hsame,
            List.take_succ_cons, List.take_succ_cons, List.cons.injEq]
          exact ⟨fun h => ⟨rfl, h⟩, fun h => h.2⟩
        · rw [if_neg hsame, hatext, hbtext, List.take_succ_cons,
            List.take_succ_cons, List.cons.injEq]
          exact ⟨fun h => by contradiction, fun h => absurd h.1 hsame⟩

end HeidiKernel.Data.CString
