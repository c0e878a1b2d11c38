import Mathlib.Algebra.Group.Nat.Defs
import Mathlib.Data.List.Basic
import Mathlib.Data.List.Induction
import Mathlib.Tactic.TypeStar

/-!
# Length-prefixed frames of bytes

A frame is a body behind its length, four bytes big-endian. This module is about streams
that are a row of frames, all with bodies of one size, followed by something else:

* `beBytes` and `beValue` are inverse to each other on four bytes;
* `frames_append_cancel` — two such rows at the front of one stream: one is an initial
  part of the other;
* `IsLongest` — the row is as long as the stream admits; `isLongest_of_stuck` says how to
  tell from what follows it;
* `Malformed` — what follows the row can never become a frame.
-/

namespace Peashape.Foundation.Framing

/-- The four bytes of a number, most significant first. -/
def beBytes (n : ℕ) : List UInt8 :=
  [UInt8.ofNat (n / 2 ^ 24), UInt8.ofNat (n / 2 ^ 16), UInt8.ofNat (n / 2 ^ 8), UInt8.ofNat n]

/-- The number some bytes stand for, most significant first. -/
def beValue (h : List UInt8) : ℕ := h.foldl (fun n b => n * 2 ^ 8 + b.toNat) 0

@[simp] theorem length_beBytes (n : ℕ) : (beBytes n).length = 4 := rfl

/-- Four bytes are enough below `2 ^ 32`. -/
theorem beValue_beBytes {n : ℕ} (h : n < 2 ^ 32) : beValue (beBytes n) = n := by
  simp only [beValue, beBytes, List.foldl_cons, List.foldl_nil, UInt8.toNat_ofNat']
  omega

/-- Four bytes are determined by the number they stand for. -/
theorem beBytes_beValue {h : List UInt8} (hl : h.length = 4) : beBytes (beValue h) = h := by
  obtain ⟨a, b, c, d, rfl⟩ : ∃ a b c d, h = [a, b, c, d] := by
    match h, hl with
    | [a, b, c, d], _ => exact ⟨a, b, c, d, rfl⟩
  have ha := a.toNat_lt
  have hb := b.toNat_lt
  have hc := c.toNat_lt
  have hd := d.toNat_lt
  simp only [beValue, beBytes, List.foldl_cons, List.foldl_nil, List.cons.injEq, and_true]
  refine ⟨?_, ?_, ?_, ?_⟩ <;>
  · apply UInt8.toNat_inj.mp
    rw [UInt8.toNat_ofNat']
    omega

/-- Some bytes stand for a number of as many bytes. -/
theorem beValue_lt (h : List UInt8) : beValue h < 2 ^ (8 * h.length) := by
  induction h using List.reverseRecOn with
  | nil => exact Nat.one_pos
  | append_singleton bs b ih =>
    have hb := b.toNat_lt
    rw [beValue, List.foldl_append, List.foldl_cons, List.foldl_nil, List.length_append, List.length_singleton,
      Nat.mul_add, Nat.mul_one, Nat.pow_add]
    rw [beValue] at ih
    omega

/-- The two bytes of a number, most significant first. -/
def beBytes16 (n : ℕ) : List UInt8 := [UInt8.ofNat (n / 2 ^ 8), UInt8.ofNat n]

/-- Two bytes are enough below `2 ^ 16`. -/
theorem beValue_beBytes16 {n : ℕ} (h : n < 2 ^ 16) : beValue (beBytes16 n) = n := by
  simp only [beValue, beBytes16, List.foldl_cons, List.foldl_nil, UInt8.toNat_ofNat']
  omega

/-- Two bytes are determined by the number they stand for. -/
theorem beBytes16_beValue {h : List UInt8} (hl : h.length = 2) : beBytes16 (beValue h) = h := by
  obtain ⟨a, b, rfl⟩ := List.length_eq_two.mp hl
  have ha := a.toNat_lt
  have hb := b.toNat_lt
  simp only [beValue, beBytes16, List.foldl_cons, List.foldl_nil, List.cons.injEq, and_true]
  refine ⟨?_, ?_⟩ <;>
  · apply UInt8.toNat_inj.mp
    rw [UInt8.toNat_ofNat']
    omega

/-! ### Rows of frames -/

/-- A body behind its length. -/
def frame (body : List UInt8) : List UInt8 := beBytes body.length ++ body

/-- A row of frames. -/
def frames (bodies : List (List UInt8)) : List UInt8 := bodies.flatMap frame

@[simp] theorem length_frame (body : List UInt8) : (frame body).length = 4 + body.length := by
  rw [frame, List.length_append, length_beBytes]

@[simp] theorem frames_nil : frames [] = [] := rfl

@[simp] theorem frames_cons (body : List UInt8) (bodies : List (List UInt8)) :
    frames (body :: bodies) = frame body ++ frames bodies := rfl

@[simp] theorem frames_append (xs ys : List (List UInt8)) : frames (xs ++ ys) = frames xs ++ frames ys :=
  List.flatMap_append

/-- A stream begins with at most one frame of a given size. -/
theorem frame_append_inj {x y : List UInt8} {s t : List UInt8} (hl : x.length = y.length)
    (h : frame x ++ s = frame y ++ t) : x = y ∧ s = t := by
  obtain ⟨hf, hst⟩ := List.append_inj h (by rw [length_frame, length_frame, hl])
  exact ⟨(List.append_inj hf (by rw [length_beBytes, length_beBytes])).2, hst⟩

/-- Two rows of frames of one size at the front of one stream: what comes after the
shorter one begins with the rest of the longer one. -/
theorem frames_append_cancel {n : ℕ} : ∀ {xs ys : List (List UInt8)} {s t : List UInt8},
    (∀ x ∈ xs, x.length = n) → (∀ y ∈ ys, y.length = n) → frames xs ++ s = frames ys ++ t →
      (∃ zs, ys = xs ++ zs ∧ s = frames zs ++ t) ∨ ∃ zs, xs = ys ++ zs ∧ t = frames zs ++ s
  | [], ys, s, t, _, _, h => .inl ⟨ys, rfl, h⟩
  | x :: xs, [], s, t, _, _, h => .inr ⟨x :: xs, rfl, h.symm⟩
  | x :: xs, y :: ys, s, t, hx, hy, h => by
    rw [frames_cons, frames_cons, List.append_assoc, List.append_assoc] at h
    have hxy : x.length = y.length := by rw [hx x (by simp), hy y (by simp)]
    obtain ⟨rfl, hst⟩ := frame_append_inj hxy h
    have hxs : ∀ x ∈ xs, x.length = n := fun a ha => hx a (List.mem_cons_of_mem _ ha)
    have hys : ∀ y ∈ ys, y.length = n := fun a ha => hy a (List.mem_cons_of_mem _ ha)
    rcases frames_append_cancel hxs hys hst with
      ⟨zs, rfl, hs⟩ | ⟨zs, rfl, ht⟩
    · exact .inl ⟨zs, rfl, hs⟩
    · exact .inr ⟨zs, rfl, ht⟩

/-- The bodies of the longest row of frames of size `n` at the front of a stream. -/
structure IsLongest (n : ℕ) (bodies : List (List UInt8)) (stream : List UInt8) : Prop where
  /-- Every body has the size. -/
  sized : ∀ y ∈ bodies, y.length = n
  /-- The row is at the front of the stream. -/
  front : frames bodies <+: stream
  /-- Any other such row is an initial part of this one. -/
  longest : ∀ ys, (∀ y ∈ ys, y.length = n) → frames ys <+: stream → ys <+: bodies

/-- A row is the longest when what follows does not begin with another frame. -/
theorem isLongest_of_stuck {n : ℕ} {bodies : List (List UInt8)} {rest : List UInt8}
    (sized : ∀ y ∈ bodies, y.length = n) (stuck : ∀ y, y.length = n → ¬ frame y <+: rest) :
    IsLongest n bodies (frames bodies ++ rest) where
  sized := sized
  front := List.prefix_append _ _
  longest ys hys := by
    rintro ⟨t, ht⟩
    rcases frames_append_cancel hys sized ht with ⟨zs, rfl, -⟩ | ⟨_ | ⟨z, zs⟩, rfl, hrest⟩
    · exact List.prefix_append _ _
    · simp
    · refine absurd ?_ (stuck z (hys z (by simp)))
      rw [hrest, frames_cons, List.append_assoc]
      exact List.prefix_append _ _

/-- The next header of the stream is too large for the reader, or is not that of a frame
of size `n` and the whole body it announces is there. -/
def Malformed (n max : ℕ) (rest : List UInt8) : Prop :=
  4 ≤ rest.length ∧ (max < beValue (rest.take 4) ∨
    beValue (rest.take 4) ≠ n ∧ 4 + beValue (rest.take 4) ≤ rest.length)

/-- A malformed stream stays malformed, whatever else arrives. -/
theorem Malformed.append {n max : ℕ} {rest : List UInt8} (h : Malformed n max rest) (more : List UInt8) :
    Malformed n max (rest ++ more) := by
  obtain ⟨h4, h⟩ := h
  rw [Malformed, List.take_append_of_le_length h4, List.length_append]
  refine ⟨by omega, ?_⟩
  rcases h with h | ⟨h, hl⟩
  · exact .inl h
  · exact .inr ⟨h, by omega⟩

/-- A malformed stream does not begin with a frame. -/
theorem Malformed.stuck {n max : ℕ} {rest : List UInt8} (h : Malformed n max rest) (hn : n ≤ max)
    (hmax : max < 2 ^ 32) : ∀ y : List UInt8, y.length = n → ¬ frame y <+: rest := by
  rintro y hy ⟨t, rfl⟩
  have htake : (frame y ++ t).take 4 = beBytes n := by
    rw [frame, hy, List.append_assoc, List.take_left' (length_beBytes n)]
  obtain ⟨-, h⟩ := h
  rw [htake, beValue_beBytes (by omega)] at h
  rcases h with h | ⟨h, -⟩
  · omega
  · exact h rfl

end Peashape.Foundation.Framing
