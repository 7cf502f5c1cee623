import Mathlib.Data.List.TakeWhile
import Mathlib.Data.UInt

/-!
# UTF-8 in chunks

A byte string is read chunk by chunk: a chunk is a character, or the longest run of
bytes that could still have begun one. `chunks` lists them, `isValid` says that all of
them are characters, and `lossy` puts U+FFFD in the place of those that are not. The
second byte of a character is held to the range that excludes overlong forms,
surrogates and what lies above U+10FFFF.

`Valid` is `isValid` by characters, for induction. The rules of `lossy` say what it does
to an ASCII byte, to a character and to a continuation byte on its own, and
`Valid.drop_eq` what is left of a valid text cut at any byte.
-/

namespace Utf8

/-- A byte `10xxxxxx`. -/
def isContinuation (b : UInt8) : Bool := 0x80 ≤ b && b ≤ 0xBF

/-- How many bytes the character takes that `a` begins; 0 when `a` begins none. -/
def width (a : UInt8) : ℕ :=
  if a < 0x80 then 1
  else if 0xC2 ≤ a && a ≤ 0xDF then 2
  else if 0xE0 ≤ a && a ≤ 0xEF then 3
  else if 0xF0 ≤ a && a ≤ 0xF4 then 4
  else 0

/-- Whether `b` may come second after `a`. -/
def isSecond (a b : UInt8) : Bool :=
  if a = 0xE0 then 0xA0 ≤ b && b ≤ 0xBF
  else if a = 0xED then 0x80 ≤ b && b ≤ 0x9F
  else if a = 0xF0 then 0x90 ≤ b && b ≤ 0xBF
  else if a = 0xF4 then 0x80 ≤ b && b ≤ 0x8F
  else isContinuation b

/-- How many of the bytes after `a` could belong to a character. -/
def continuations (a : UInt8) : List UInt8 → ℕ
  | [] => 0
  | b :: rest => if isSecond a b then (rest.takeWhile isContinuation).length + 1 else 0

/-- The chunk that `a` begins: whether it is a character, and how many bytes follow `a` in it. -/
def chunk (a : UInt8) (rest : List UInt8) : Bool × ℕ :=
  if width a = 0 then (false, 0)
  else if width a ≤ continuations a rest + 1 then (true, width a - 1)
  else (false, continuations a rest)

/-- `chunks`, for at most so many of them. -/
def chunksLoop : ℕ → List UInt8 → List (Bool × List UInt8)
  | _, [] => []
  | 0, _ => []
  | fuel + 1, a :: rest =>
    let (valid, n) := chunk a rest
    (valid, a :: rest.take n) :: chunksLoop fuel (rest.drop n)

/-- The chunks of a byte string, each with whether it is a character. -/
def chunks (bytes : List UInt8) : List (Bool × List UInt8) := chunksLoop bytes.length bytes

/-- The byte string is UTF-8. -/
def isValid (bytes : List UInt8) : Bool := (chunks bytes).all (·.1)

/-- U+FFFD. -/
def replacement : List UInt8 := [0xEF, 0xBF, 0xBD]

/-- The characters of a byte string, U+FFFD standing for every other chunk. -/
def lossy (bytes : List UInt8) : List UInt8 :=
  (chunks bytes).flatMap fun c => if c.1 then c.2 else replacement

/-! ### Chunks -/

theorem chunksLoop_of_le {m n : ℕ} {bytes : List UInt8} (hm : bytes.length ≤ m)
    (hn : bytes.length ≤ n) :
    chunksLoop m bytes = chunksLoop n bytes := by
  induction m generalizing n bytes with
  | zero =>
    have hnil : bytes = [] := List.length_eq_zero_iff.mp (Nat.le_zero.mp hm)
    subst hnil
    cases n <;> rfl
  | succ m ih =>
    cases bytes with
    | nil => cases n <;> rfl
    | cons a rest =>
      cases n with
      | zero => simp at hn
      | succ n =>
        simp only [List.length_cons, Nat.add_le_add_iff_right] at hm hn
        simp only [chunksLoop]
        rw [ih (n := n)] <;> simp <;> omega

theorem chunks_cons (a : UInt8) (rest : List UInt8) :
    chunks (a :: rest) = ((chunk a rest).1, a :: rest.take (chunk a rest).2) :: chunks
      (rest.drop (chunk a rest).2) := by
  rw [chunks, chunks, List.length_cons, chunksLoop]
  simp only
  rw [chunksLoop_of_le (m := rest.length) (by simp) (Nat.le_refl _)]

theorem lossy_cons (a : UInt8) (rest : List UInt8) :
    lossy (a :: rest) = (if (chunk a rest).1 then a :: rest.take (chunk a rest).2 else replacement) ++
      lossy (rest.drop (chunk a rest).2) := by
  rw [lossy, chunks_cons, List.flatMap_cons]
  rfl

theorem isValid_cons (a : UInt8) (rest : List UInt8) :
    isValid (a :: rest) = ((chunk a rest).1 && isValid (rest.drop (chunk a rest).2)) := by
  rw [isValid, chunks_cons, List.all_cons]
  rfl

theorem chunk_ascii {a : UInt8} (h : a < 0x80) (rest : List UInt8) : chunk a rest = (true, 0) := by
  simp [chunk, width, h]

theorem chunk_continuation {a : UInt8} (h : isContinuation a = true) (rest : List UInt8) :
    chunk a rest = (false, 0) := by
  have hw : width a = 0 := by
    simp only [isContinuation, Bool.and_eq_true, decide_eq_true_eq, UInt8.le_iff_toNat_le] at h
    simp only [width, UInt8.lt_iff_toNat_lt, UInt8.le_iff_toNat_le, Bool.and_eq_true,
      decide_eq_true_eq]
    simp at h ⊢
    split_ifs <;> omega
  rw [chunk, if_pos hw]

theorem lossy_ascii {a : UInt8} (h : a < 0x80) (rest : List UInt8) :
    lossy (a :: rest) = a :: lossy rest := by
  simp [lossy_cons, chunk_ascii h]

/-- A continuation byte on its own is replaced. -/
theorem lossy_continuation {a : UInt8} (h : isContinuation a = true) (rest : List UInt8) :
    lossy (a :: rest) = replacement ++ lossy rest := by
  simp [lossy_cons, chunk_continuation h]

theorem lossy_ascii_append {bytes : List UInt8} (h : ∀ a ∈ bytes, a < 0x80) (rest : List UInt8) :
    lossy (bytes ++ rest) = bytes ++ lossy rest := by
  induction bytes with
  | nil => rfl
  | cons a bytes ih =>
    rw [List.cons_append, lossy_ascii (h a (List.mem_cons_self ..)),
      ih fun b hb => h b (List.mem_cons_of_mem _ hb)]
    rfl

theorem lossy_continuation_append {bytes : List UInt8} (h : ∀ a ∈ bytes, isContinuation a = true)
    (rest : List UInt8) : lossy (bytes ++ rest) = bytes.flatMap (fun _ => replacement) ++
      lossy rest := by
  induction bytes with
  | nil => rfl
  | cons a bytes ih =>
    rw [List.cons_append, lossy_continuation (h a (List.mem_cons_self ..)),
      ih fun b hb => h b (List.mem_cons_of_mem _ hb), List.flatMap_cons, List.append_assoc]

/-! ### Characters -/

/-- `a` and `tail` are a character. -/
def IsChar (a : UInt8) (tail : List UInt8) : Prop := chunk a tail = (true, tail.length)

theorem isContinuation_of_isSecond {a b : UInt8} (h : isSecond a b = true) :
    isContinuation b = true := by
  simp only [isSecond, isContinuation, Bool.and_eq_true, decide_eq_true_eq] at h ⊢
  split_ifs at h <;> simp only [UInt8.le_iff_toNat_le, Bool.and_eq_true,
    decide_eq_true_eq] at h ⊢ <;>
    simp at h ⊢ <;> omega

theorem continuations_append_le (a : UInt8) (tail rest : List UInt8) :
    continuations a tail ≤ continuations a (tail ++ rest) := by
  cases tail with
  | nil => exact Nat.zero_le _
  | cons b tail =>
    simp only [List.cons_append, continuations]
    split
    · rw [List.takeWhile_append]
      split <;> simp_all
    · exact Nat.le_refl _

theorem chunk_eq_true {a : UInt8} {rest : List UInt8} {n : ℕ} :
    chunk a rest = (true, n) ↔ width a ≠ 0 ∧ width a ≤ continuations a rest + 1 ∧
    n = width a - 1 := by
  unfold chunk
  split_ifs <;> simp_all [eq_comm]

/-- What follows a character does not change it. -/
theorem IsChar.append {a : UInt8} {tail : List UInt8} (h : IsChar a tail) (rest : List UInt8) :
    chunk a (tail ++ rest) = (true, tail.length) := by
  obtain ⟨hpos, hle, hlen⟩ := chunk_eq_true.mp h
  have := continuations_append_le a tail rest
  exact chunk_eq_true.mpr ⟨hpos, by omega, hlen⟩

theorem continuations_le (a : UInt8) (rest : List UInt8) : continuations a rest ≤ rest.length := by
  cases rest with
  | nil => exact Nat.le_refl _
  | cons b rest =>
    simp only [continuations]
    split
    · exact Nat.succ_le_succ (List.takeWhile_prefix _).length_le
    · exact Nat.zero_le _

/-- A run of bytes that could all belong to a character is one of continuation bytes. -/
theorem isContinuation_of_continuations {a : UInt8} {rest : List UInt8} {n : ℕ}
    (h : n ≤ continuations a rest) :
    ∀ b ∈ rest.take n, isContinuation b = true := by
  cases rest with
  | nil => simp
  | cons c rest =>
    cases n with
    | zero => simp
    | succ n =>
      simp only [continuations] at h
      split at h
      · rename_i hc
        intro b hb
        rcases List.mem_cons.mp hb with rfl | hb
        · exact isContinuation_of_isSecond hc
        · have hpre : rest.take n <+: rest.takeWhile isContinuation :=
            List.prefix_of_prefix_length_le (List.take_prefix _ _) (List.takeWhile_prefix _) (by simp; omega)
          exact List.mem_takeWhile_imp (hpre.subset hb)
      · omega

theorem IsChar.isContinuation {a : UInt8} {tail : List UInt8} (h : IsChar a tail) :
    ∀ b ∈ tail, isContinuation b = true := by
  obtain ⟨-, hle, hlen⟩ := chunk_eq_true.mp h
  have hle' : tail.length ≤ continuations a tail := by omega
  have hall := isContinuation_of_continuations hle'
  rwa [List.take_length] at hall

/-- A character of more bytes than one has no ASCII byte. -/
theorem IsChar.ascii_or {a : UInt8} {tail : List UInt8} (h : IsChar a tail) :
    (a < 0x80 ∧ tail = []) ∨ ∀ b ∈ a :: tail, 0x80 ≤ b := by
  by_cases ha : a < 0x80
  · refine .inl ⟨ha, ?_⟩
    have := congrArg Prod.snd ((chunk_ascii ha tail).symm.trans h)
    exact List.length_eq_zero_iff.mp this.symm
  · refine .inr fun b hb => ?_
    rcases List.mem_cons.mp hb with rfl | hb
    · exact UInt8.not_lt.mp ha
    · have := h.isContinuation b hb
      simp only [Utf8.isContinuation, Bool.and_eq_true, decide_eq_true_eq] at this
      exact this.1

theorem lossy_char {a : UInt8} {tail : List UInt8} (h : IsChar a tail) (rest : List UInt8) :
    lossy (a :: tail ++ rest) = a :: tail ++ lossy rest := by
  rw [List.cons_append, lossy_cons, h.append]
  simp

/-- UTF-8, character by character. -/
inductive Valid : List UInt8 → Prop where
  | nil : Valid []
  | char {a : UInt8} {tail rest : List UInt8} : IsChar a tail → Valid rest → Valid (a :: tail ++ rest)

theorem valid_of_isValid {bytes : List UInt8} (h : isValid bytes = true) : Valid bytes := by
  induction hn : bytes.length using Nat.strong_induction_on generalizing bytes with
  | _ n ih =>
    cases bytes with
    | nil => exact .nil
    | cons a rest =>
      rw [isValid_cons, Bool.and_eq_true] at h
      obtain ⟨hchar, hrest⟩ := h
      obtain ⟨hpos, hle, hk⟩ := chunk_eq_true.mp (Prod.ext hchar rfl : chunk a rest = (true, (chunk a rest).2))
      have hk' := continuations_le a rest
      have hlen : (rest.take (chunk a rest).2).length = width a - 1 := by rw [List.length_take]; omega
      -- the bytes taken are continuations enough on their own
      have hself : width a ≤ continuations a (rest.take (chunk a rest).2) + 1 := by
        cases rest with
        | nil => simpa using hle
        | cons b rest =>
          cases hw : (chunk a (b :: rest)).2 with
          | zero => omega
          | succ k =>
            have hle' : k + 1 ≤ continuations a (b :: rest) := by omega
            have hall := isContinuation_of_continuations hle'
            simp only [List.take_succ_cons, List.forall_mem_cons] at hall
            simp only [continuations] at hle
            simp only [List.take_succ_cons, continuations]
            split at hle
            · rename_i hb
              rw [hw, List.take_succ_cons, List.length_cons] at hlen
              rw [if_pos hb, List.takeWhile_eq_self_iff.mpr hall.2]
              omega
            · omega
      have := Valid.char (chunk_eq_true.mpr ⟨hpos, hself, hlen⟩)
        (ih _ (by rw [List.length_drop, ← hn, List.length_cons]; omega) hrest rfl)
      rwa [List.cons_append, List.take_append_drop] at this

/-- **A valid text cut anywhere**: what is left begins with the end of a character at most. -/
theorem Valid.drop_eq {bytes : List UInt8} (h : Valid bytes) (n : ℕ) :
    ∃ cut rest, bytes.drop n = cut ++ rest ∧ (∀ b ∈ cut, isContinuation b = true) ∧ Valid rest := by
  induction h generalizing n with
  | nil => exact ⟨[], [], by simp, by simp, .nil⟩
  | char hchar hrest ih =>
    rename_i a tail rest
    cases n with
    | zero => exact ⟨[], _, rfl, by simp, .char hchar hrest⟩
    | succ n =>
      rw [List.cons_append, List.drop_succ_cons, List.drop_append]
      by_cases hn : n < tail.length
      · rw [Nat.sub_eq_zero_of_le hn.le, List.drop_zero]
        exact ⟨tail.drop n, rest, rfl, fun b hb => hchar.isContinuation b (List.mem_of_mem_drop hb),
          hrest⟩
      · obtain ⟨cut, rest', heq, hcut, hrest'⟩ := ih (n - tail.length)
        rw [List.drop_eq_nil_of_le (by omega), List.nil_append]
        exact ⟨cut, rest', heq, hcut, hrest'⟩

example : lossy [0x41, 0xE2, 0x82, 0xAC, 0x80, 0xE2, 0x82, 0x42] =
    [0x41, 0xE2, 0x82, 0xAC] ++ replacement ++ replacement ++ [0x42] := by decide

end Utf8
