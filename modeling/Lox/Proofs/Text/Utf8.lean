/-
The glyph at the front of a text.

# The table of encodings

`Encodes v bytes` is the table of well-formed encodings: which bytes stand for the code point `v`,
by their length and the ranges of their bytes. It leaves out what no character is written as:
encodings that are longer than needed, surrogates, and numbers past the last code point. The ranges
of the byte after the first are narrowed for that, and for nothing else.

# Characters and encodings

The table is right about characters in both directions. What a character is written as is in the
table under its number (`encodes_char`), and what is in the table is what the character with that
number is written as (`char_of_encodes`). Both are arithmetic on the pieces of six bits that a code
point is cut into, one case for each length.

# Reading

Reading the front of a text tests just the ranges of the table (`isContinuation_iff`, `range_iff`,
`narrow_iff`). So an encoding that is there is read, whatever follows it (`front_of_encodes`), and
what is read is either such an encoding or the first byte alone (`front_cases`).

# Glyphs

`Glyph.Leads` says what a text starts with, without reference to how it is read: the character whose
encoding is a front of the text, or else, if there is none, the first byte. By the above this is
what is read (`Glyph.leads_iff`), and there is one such glyph (`Glyph.Leads.unique`). Since no byte
of an encoding after its first is a line feed, what a line starts with does not depend on the lines
after it (`Glyph.Leads.break`).
-/
import Lox.Text.Utf8

namespace Lox

namespace Utf8

-- ==== Well-formed encodings

/-- A byte after the first one of an encoding. -/
def Continues (b : UInt8) : Prop := 128 ≤ b.toNat ∧ b.toNat ≤ 191

/-- The well-formed encodings of code points, by their length. The first continuation byte is
narrowed down where the code point would otherwise be too small, a surrogate or too large. -/
inductive Encodes : Nat → Bytes → Prop where
  | one {b : UInt8} (first : b.toNat ≤ 127) : Encodes b.toNat [b]
  | two {b c : UInt8} (first : 194 ≤ b.toNat ∧ b.toNat ≤ 223) (hc : Continues c) :
      Encodes (b.toNat % 32 * 64 + c.toNat % 64) [b, c]
  | three {b c d : UInt8} (first : 224 ≤ b.toNat ∧ b.toNat ≤ 239) (hc : Continues c)
      (low : b.toNat = 224 → 160 ≤ c.toNat) (high : b.toNat = 237 → c.toNat ≤ 159)
      (hd : Continues d) :
      Encodes (b.toNat % 16 * 4096 + c.toNat % 64 * 64 + d.toNat % 64) [b, c, d]
  | four {b c d e : UInt8} (first : 240 ≤ b.toNat ∧ b.toNat ≤ 244) (hc : Continues c)
      (low : b.toNat = 240 → 144 ≤ c.toNat) (high : b.toNat = 244 → c.toNat ≤ 143)
      (hd : Continues d) (he : Continues e) :
      Encodes (b.toNat % 8 * 262144 + c.toNat % 64 * 4096 + d.toNat % 64 * 64 + e.toNat % 64)
        [b, c, d, e]

-- ==== Encodings of characters

/-- A byte is known from its number. -/
theorem ofNat_eq {n : Nat} {b : UInt8} (h : n = b.toNat) : UInt8.ofNat n = b := by
  rw [h, UInt8.ofNat_toNat]

/-- Numbers below 256 are those of bytes. -/
theorem toNat_ofNat {n : Nat} (h : n < 256) : (UInt8.ofNat n).toNat = n :=
  UInt8.toNat_ofNat_of_lt' h

/-- The number of the character with this number, where there is one. -/
theorem val_ofNat {n : Nat} (h : n.isValidChar) : (Char.ofNat n).val.toNat = n := by
  unfold Char.ofNat
  rw [dif_pos h]
  rfl

/-- An encoding is what its character is written as, with one case for each length. The ranges of
the bytes are such that the value needs that length and no shorter one. -/
theorem char_of_encodes {v : Nat} {text : Bytes} (h : Encodes v text) :
    String.utf8EncodeChar (Char.ofNat v) = text := by
  unfold String.utf8EncodeChar
  cases h with
  | one first =>
      rw [val_ofNat (.inl (by omega))]
      dsimp only
      rw [if_pos first, UInt8.ofNat_toNat]
  | @two b c first hc =>
      unfold Continues at hc
      rw [val_ofNat (.inl (by omega))]
      dsimp only
      rw [if_neg (by omega), if_pos (by omega), ofNat_eq (b := b) (by omega),
        ofNat_eq (b := c) (by omega)]
  | @three b c d first hc low high hd =>
      unfold Continues at hc hd
      rw [val_ofNat (by unfold Nat.isValidChar; omega)]
      dsimp only
      rw [if_neg (by omega), if_neg (by omega), if_pos (by omega), ofNat_eq (b := b) (by omega),
        ofNat_eq (b := c) (by omega), ofNat_eq (b := d) (by omega)]
  | @four b c d e first hc low high hd he =>
      unfold Continues at hc hd he
      rw [val_ofNat (by unfold Nat.isValidChar; omega)]
      dsimp only
      rw [if_neg (by omega), if_neg (by omega), if_neg (by omega), ofNat_eq (b := b) (by omega),
        ofNat_eq (b := c) (by omega), ofNat_eq (b := d) (by omega), ofNat_eq (b := e) (by omega)]

/-- What a character is written as is an encoding of it. A character is no surrogate and not too
large, which is what the limits on the second byte of an encoding amount to. -/
theorem encodes_char (c : Char) : Encodes c.toNat (String.utf8EncodeChar c) := by
  have hvalid : c.toNat < 55296 ∨ 57343 < c.toNat ∧ c.toNat < 1114112 := c.valid
  unfold String.utf8EncodeChar
  rw [show c.val.toNat = c.toNat from rfl]
  -- only the number matters from here on: each length is a fact about its pieces of six bits
  generalize c.toNat = v at hvalid
  dsimp only
  split
  · have h := Encodes.one (b := UInt8.ofNat v) (by rw [toNat_ofNat] <;> omega)
    rwa [toNat_ofNat (by omega)] at h
  split
  · have hb := toNat_ofNat (n := v / 64 % 32 + 192) (by omega)
    have hc := toNat_ofNat (n := v % 64 + 128) (by omega)
    generalize UInt8.ofNat (v / 64 % 32 + 192) = b at hb ⊢
    generalize UInt8.ofNat (v % 64 + 128) = c at hc ⊢
    have hv : b.toNat % 32 * 64 + c.toNat % 64 = v := by omega
    rw [← hv]
    exact .two (by omega) (by unfold Continues; omega)
  split
  · have hb := toNat_ofNat (n := v / 4096 % 16 + 224) (by omega)
    have hc := toNat_ofNat (n := v / 64 % 64 + 128) (by omega)
    have hd := toNat_ofNat (n := v % 64 + 128) (by omega)
    generalize UInt8.ofNat (v / 4096 % 16 + 224) = b at hb ⊢
    generalize UInt8.ofNat (v / 64 % 64 + 128) = c at hc ⊢
    generalize UInt8.ofNat (v % 64 + 128) = d at hd ⊢
    have hv : b.toNat % 16 * 4096 + c.toNat % 64 * 64 + d.toNat % 64 = v := by omega
    rw [← hv]
    exact .three (by omega) (by unfold Continues; omega) (by omega) (by omega)
      (by unfold Continues; omega)
  · have hb := toNat_ofNat (n := v / 262144 % 8 + 240) (by omega)
    have hc := toNat_ofNat (n := v / 4096 % 64 + 128) (by omega)
    have hd := toNat_ofNat (n := v / 64 % 64 + 128) (by omega)
    have he := toNat_ofNat (n := v % 64 + 128) (by omega)
    generalize UInt8.ofNat (v / 262144 % 8 + 240) = b at hb ⊢
    generalize UInt8.ofNat (v / 4096 % 64 + 128) = c at hc ⊢
    generalize UInt8.ofNat (v / 64 % 64 + 128) = d at hd ⊢
    generalize UInt8.ofNat (v % 64 + 128) = e at he ⊢
    have hv :
        b.toNat % 8 * 262144 + c.toNat % 64 * 4096 + d.toNat % 64 * 64 + e.toNat % 64 = v := by
      omega
    rw [← hv]
    exact .four (by omega) (by unfold Continues; omega) (by omega) (by omega)
      (by unfold Continues; omega) (by unfold Continues; omega)

-- ==== Reading

/-- The test for a byte after the first is that of the table. -/
theorem isContinuation_iff {b : UInt8} : isContinuation b = true ↔ Continues b := by
  simp [isContinuation, Continues, UInt8.le_iff_toNat_le]

/-- The range of the byte that follows the first one. -/
theorem narrow_iff {b c x y lo hi : UInt8} (hlo : 128 ≤ lo.toNat) (hhi : hi.toNat ≤ 191) :
    ((if b == x then lo else 0x80) ≤ c && c ≤ (if b == y then hi else 0xBF)) = true ↔
      Continues c ∧ (b.toNat = x.toNat → lo.toNat ≤ c.toNat) ∧
        (b.toNat = y.toNat → c.toNat ≤ hi.toNat) := by
  have hlow : (0x80 : UInt8).toNat = 128 := rfl
  have hhigh : (0xBF : UInt8).toNat = 191 := rfl
  simp only [Continues, Bool.and_eq_true, decide_eq_true_eq, UInt8.le_iff_toNat_le,
    ← UInt8.toNat_inj, beq_iff_eq]
  split <;> split <;> omega

/-- A range of bytes is the range of their numbers. -/
theorem range_iff (b lo hi : UInt8) :
    (lo ≤ b && b ≤ hi) = true ↔ lo.toNat ≤ b.toNat ∧ b.toNat ≤ hi.toNat := by
  simp [UInt8.le_iff_toNat_le]

/-- An encoding at the front of a text is read, whatever follows it. Its first byte tells the
length, and each of the other bytes is in the range that is checked. -/
theorem front_of_encodes {v : Nat} {b : UInt8} {t : Bytes} (h : Encodes v (b :: t)) (rest : Bytes) :
    front b (t ++ rest) = .char (Char.ofNat v) := by
  have not_one : 128 ≤ b.toNat → ¬b < 0x80 := Nat.not_lt.mpr
  have not_range : ∀ lo hi : UInt8, hi.toNat < b.toNat → ¬(lo ≤ b && b ≤ hi) = true :=
    fun lo hi hlt hin => Nat.not_le.mpr hlt ((range_iff b lo hi).mp hin).2
  unfold front
  cases h with
  | one first => rw [if_pos (show b < 0x80 from Nat.lt_succ_of_le first)]
  | two first hc =>
      rw [if_neg (not_one (by omega)), if_pos ((range_iff b 0xC2 0xDF).mpr first)]
      exact if_pos (isContinuation_iff.mpr hc)
  | three first hc low high hd =>
      rw [if_neg (not_one (by omega)), if_neg (not_range 0xC2 0xDF first.1),
        if_pos ((range_iff b 0xE0 0xEF).mpr first)]
      refine if_pos (Bool.and_eq_true_iff.mpr ⟨?_, isContinuation_iff.mpr hd⟩)
      exact (narrow_iff (by decide) (by decide)).mpr ⟨hc, low, high⟩
  | four first hc low high hd he =>
      have hfirst : 223 < b.toNat := by omega
      rw [if_neg (not_one (by omega)), if_neg (not_range 0xC2 0xDF hfirst),
        if_neg (not_range 0xE0 0xEF first.1), if_pos ((range_iff b 0xF0 0xF4).mpr first)]
      refine if_pos (Bool.and_eq_true_iff.mpr ⟨Bool.and_eq_true_iff.mpr ⟨?_, ?_⟩, ?_⟩)
      · exact (narrow_iff (by decide) (by decide)).mpr ⟨hc, low, high⟩
      · exact isContinuation_iff.mpr hd
      · exact isContinuation_iff.mpr he

/-- What is read is the first byte alone, or an encoding at the front of the text. A byte is read
alone where the bytes after it are missing or out of range. -/
theorem front_cases (b : UInt8) (rest : Bytes) :
    front b rest = .stray b ∨
      ∃ v t, front b rest = .char (Char.ofNat v) ∧ Encodes v (b :: t) ∧ t <+: rest := by
  unfold front
  split
  next hone => exact .inr ⟨_, [], rfl, .one (Nat.le_of_lt_succ hone), List.nil_prefix⟩
  split
  next htwo =>
    have first := (range_iff b 0xC2 0xDF).mp htwo
    split
    next c more =>
      by_cases hc : isContinuation c = true
      · exact .inr ⟨_, [c], if_pos hc, .two first (isContinuation_iff.mp hc), by simp⟩
      · exact .inl (if_neg hc)
    next => exact .inl rfl
  split
  next hthree =>
    have first := (range_iff b 0xE0 0xEF).mp hthree
    split
    next c d more =>
      by_cases hcd : ((if b == 0xE0 then (0xA0 : UInt8) else 0x80) ≤ c &&
          c ≤ (if b == 0xED then (0x9F : UInt8) else 0xBF) && isContinuation d) = true
      · obtain ⟨hc, hd⟩ := Bool.and_eq_true_iff.mp hcd
        obtain ⟨hc, low, high⟩ := (narrow_iff (by decide) (by decide)).mp hc
        exact .inr ⟨_, [c, d], if_pos hcd, .three first hc low high (isContinuation_iff.mp hd),
          by simp⟩
      · exact .inl (if_neg hcd)
    next => exact .inl rfl
  split
  next hfour =>
    have first := (range_iff b 0xF0 0xF4).mp hfour
    split
    next c d e more =>
      by_cases hcde : ((if b == 0xF0 then (0x90 : UInt8) else 0x80) ≤ c &&
          c ≤ (if b == 0xF4 then (0x8F : UInt8) else 0xBF) && isContinuation d &&
          isContinuation e) = true
      · obtain ⟨hcd, he⟩ := Bool.and_eq_true_iff.mp hcde
        obtain ⟨hc, hd⟩ := Bool.and_eq_true_iff.mp hcd
        obtain ⟨hc, low, high⟩ := (narrow_iff (by decide) (by decide)).mp hc
        exact .inr ⟨_, [c, d, e], if_pos hcde,
          .four first hc low high (isContinuation_iff.mp hd) (isContinuation_iff.mp he), by simp⟩
      · exact .inl (if_neg hcde)
    next => exact .inl rfl
  exact .inl rfl

end Utf8

-- ==== Glyphs

/-- The glyph is what the text starts with: a character, or else a byte that starts none. -/
inductive Glyph.Leads : Glyph → Bytes → Prop where
  | char {c : Char} {text : Bytes} (h : String.utf8EncodeChar c <+: text) : Leads (.char c) text
  | stray {b : UInt8} {rest : Bytes} (h : ∀ c, ¬String.utf8EncodeChar c <+: b :: rest) :
      Leads (.stray b) (b :: rest)

/-- A glyph that leads a text is as many of its first bytes as it is wide. -/
theorem Glyph.Leads.take {g : Glyph} {text : Bytes} (h : g.Leads text) :
    text.take g.width = g.bytes := by
  cases h with
  | char h =>
      rw [Glyph.width, ← String.length_utf8EncodeChar]
      exact (List.prefix_iff_eq_take.mp h).symm
  | stray h => rfl

/-- A character is written as one byte at least, so reading it makes progress. -/
theorem Utf8.encode_ne_nil (c : Char) : String.utf8EncodeChar c ≠ [] := by
  intro hnil
  have hlength := String.length_utf8EncodeChar c
  rw [hnil] at hlength
  exact absurd hlength (Nat.ne_of_lt (Char.utf8Size_pos c))

/-- A character whose encoding is at the front of a text is what is read. -/
theorem Utf8.front_of_prefix {c : Char} {b : UInt8} {rest : Bytes}
    (h : String.utf8EncodeChar c <+: b :: rest) : front b rest = .char c := by
  have encodes := encodes_char c
  obtain ⟨after, hafter⟩ := h
  cases hc : String.utf8EncodeChar c with
  | nil => exact absurd hc (encode_ne_nil c)
  | cons b' t =>
      rw [hc] at encodes hafter
      rw [List.cons_append, List.cons.injEq] at hafter
      obtain ⟨rfl, rfl⟩ := hafter
      rw [front_of_encodes encodes after, Char.ofNat_toNat]

/-- What leads a text is what is read at its front. An encoding that is there is read, and a stray
byte is read only where no encoding is. -/
theorem Glyph.leads_iff {g : Glyph} {b : UInt8} {rest : Bytes} :
    g.Leads (b :: rest) ↔ g = Utf8.front b rest := by
  constructor
  · intro h
    cases h with
    | char h => exact (Utf8.front_of_prefix h).symm
    | stray h =>
        rcases Utf8.front_cases b rest with hstray | ⟨v, t, -, encodes, hpre⟩
        · exact hstray.symm
        · refine absurd ?_ (h (Char.ofNat v))
          rw [Utf8.char_of_encodes encodes]
          exact List.cons_prefix_cons.mpr ⟨rfl, hpre⟩
  · rintro rfl
    rcases Utf8.front_cases b rest with hstray | ⟨v, t, hchar, encodes, hpre⟩
    · rw [hstray]
      refine .stray fun c hc => ?_
      rw [Utf8.front_of_prefix hc] at hstray
      cases hstray
    · rw [hchar]
      refine .char ?_
      rw [Utf8.char_of_encodes encodes]
      exact List.cons_prefix_cons.mpr ⟨rfl, hpre⟩

/-- The bytes of an encoding after the first continue it. -/
theorem Utf8.Encodes.continues {v : Nat} {b : UInt8} {t : Bytes} (h : Encodes v (b :: t)) :
    ∀ c ∈ t, Continues c := by
  cases h <;> simp_all

/-- An encoding does not go over a line feed after its first byte. -/
theorem Utf8.prefix_of_break {c : Char} {b : UInt8} {rest more : Bytes}
    (h : String.utf8EncodeChar c <+: b :: (rest ++ Bytes.lineFeed :: more)) :
    String.utf8EncodeChar c <+: b :: rest := by
  have encodes := encodes_char c
  obtain ⟨b', t, hc⟩ := List.exists_cons_of_ne_nil (encode_ne_nil c)
  rw [hc] at h encodes ⊢
  obtain ⟨rfl, ht⟩ := List.cons_prefix_cons.mp h
  refine List.cons_prefix_cons.mpr ⟨rfl, ?_⟩
  -- the encoding ends before the line feed, or holds it as one of its later bytes
  rcases Nat.le_total t.length rest.length with hle | hle
  · exact List.prefix_of_prefix_length_le ht (List.prefix_append _ _) hle
  · obtain ⟨u, rfl⟩ := List.prefix_of_prefix_length_le (List.prefix_append _ _) ht hle
    rw [List.prefix_append_right_inj] at ht
    cases u with
    | nil => simp
    | cons x u =>
        obtain ⟨rfl, -⟩ := List.cons_prefix_cons.mp ht
        have hfeed := encodes.continues Bytes.lineFeed (by simp)
        exact absurd hfeed.1 (by decide)

/-- What a text starts with is the same when another line follows. -/
theorem Glyph.Leads.break {g : Glyph} {b : UInt8} {rest : Bytes} (h : g.Leads (b :: rest))
    (more : Bytes) : g.Leads (b :: (rest ++ Bytes.lineFeed :: more)) := by
  cases h with
  | char h => exact .char (h.trans (List.cons_prefix_cons.mpr ⟨rfl, List.prefix_append _ _⟩))
  | stray h => exact .stray fun c hc => h c (Utf8.prefix_of_break hc)

/-- A text starts with one glyph. -/
theorem Glyph.Leads.unique {g g' : Glyph} {text : Bytes} (h : g.Leads text) (h' : g'.Leads text) :
    g = g' := by
  cases text with
  | nil =>
      cases h with
      | char h => exact absurd (List.prefix_nil.mp h) (Utf8.encode_ne_nil _)
  | cons b rest => rw [Glyph.leads_iff.mp h, Glyph.leads_iff.mp h']

end Lox
