/-
Trimmed texts.

Trimming reads a text as glyphs, drops blank glyphs at both ends and writes down the bytes of the
rest. That a trimmed text stays as it is when it is trimmed again is not plain from that: the bytes
that are left are read again, and they might be read as other glyphs than those that were left.

# Glyphs in a row

A text is the bytes of its glyphs (`flatMap_decode`). The bytes of glyphs that stand in a row in a
text are read as just these glyphs. Those before them do not matter, since a text is read from its
front (`decode_right`, by induction on the glyphs before). Those after them do not either: a
character that is there is still there when the text is cut behind it, and a byte that starts no
character starts none in a shorter text (`Glyph.Leads.cut`, and from it `decode_left`).

# Trimming twice

So trimming a second time finds the glyphs that the first time left, and these have a blank at
neither end (`trim_trim`).
-/
import Mathlib.Data.List.DropRight
import Lox.Text.Blank
import Lox.Proofs.Text.Utf8

namespace Lox

-- ==== Glyphs in a row

namespace Glyph

variable {g : Glyph} {text : Bytes}

/-- A text is the glyph that leads it and what comes after. -/
theorem Leads.append_drop (h : g.Leads text) : g.bytes ++ text.drop g.width = text := by
  rw [← h.take, List.take_append_drop]

/-- A glyph still leads a text after the text has been cut somewhere behind it. -/
theorem Leads.cut {rest more : Bytes} (h : g.Leads (g.bytes ++ (rest ++ more))) :
    g.Leads (g.bytes ++ rest) := by
  cases g with
  | char c => exact .char (List.prefix_append _ _)
  | stray b =>
      cases h with
      | stray hnone =>
          refine .stray fun c hc => hnone c (hc.trans ?_)
          exact List.cons_prefix_cons.mpr ⟨rfl, List.prefix_append rest more⟩

end Glyph

namespace Utf8

variable {g : Glyph} {text : Bytes} {before after : List Glyph}

/-- Reading with bytes to skip is reading what is left without them. -/
theorem decodeFrom_eq (skip : Nat) (text : Bytes) :
    decodeFrom skip text = decode (text.drop skip) := by
  induction text generalizing skip with
  | nil =>
      rw [List.drop_nil]
      cases skip <;> rfl
  | cons b rest ih =>
      cases skip with
      | zero => rfl
      | succ skip => exact ih skip

/-- A text is read as the glyph that leads it, and then what comes after. -/
theorem decode_of_leads (h : g.Leads text) : decode text = g :: decode (text.drop g.width) := by
  cases text with
  | nil =>
      cases h with
      | char h => exact absurd (List.prefix_nil.mp h) (encode_ne_nil _)
  | cons b rest =>
      obtain rfl := Glyph.leads_iff.mp h
      have hwidth : (front b rest).width = (front b rest).width - 1 + 1 :=
        (Nat.sub_add_cancel (front b rest).width_pos).symm
      rw [hwidth, List.drop_succ_cons, ← decodeFrom_eq]
      rfl

/-- The first glyph of a text leads it, and the others are those of the rest. -/
theorem leads_of_decode (h : decode text = g :: after) :
    g.Leads text ∧ decode (text.drop g.width) = after := by
  cases text with
  | nil => cases h
  | cons b rest =>
      have hlead : (front b rest).Leads (b :: rest) := Glyph.leads_iff.mpr rfl
      rw [decode_of_leads hlead, List.cons.injEq] at h
      obtain ⟨rfl, h⟩ := h
      exact ⟨hlead, h⟩

/-- A text is the bytes of its glyphs. -/
theorem flatMap_decode (text : Bytes) : (decode text).flatMap Glyph.bytes = text := by
  generalize hglyphs : decode text = glyphs
  induction glyphs generalizing text with
  | nil =>
      cases text with
      | nil => rfl
      | cons b rest => cases hglyphs
  | cons g glyphs ih =>
      obtain ⟨hlead, hrest⟩ := leads_of_decode hglyphs
      rw [List.flatMap_cons, ih _ hrest, hlead.append_drop]

/-- Glyphs at the end of a text are read from their own bytes: reading comes to where they start. -/
theorem decode_right (h : decode text = before ++ after) :
    decode (after.flatMap Glyph.bytes) = after := by
  induction before generalizing text with
  | nil =>
      rw [List.nil_append] at h
      rw [← h, flatMap_decode]
  | cons g before ih => exact ih (leads_of_decode h).2

/-- Glyphs at the front of a text are read from their own bytes: what was cut off behind them does
not change what leads the text. -/
theorem decode_left (h : decode text = before ++ after) :
    decode (before.flatMap Glyph.bytes) = before := by
  induction before generalizing text with
  | nil => rfl
  | cons g before ih =>
      rw [List.cons_append] at h
      obtain ⟨hlead, hrest⟩ := leads_of_decode h
      have hbehind : before.flatMap Glyph.bytes ++ after.flatMap Glyph.bytes =
          text.drop g.width := by
        rw [← List.flatMap_append, ← hrest, flatMap_decode]
      -- the first glyph leads the whole text, and so it leads the text that is cut after `before`
      rw [← hlead.append_drop, ← hbehind] at hlead
      rw [List.flatMap_cons, decode_of_leads hlead.cut, List.drop_left' g.length_bytes, ih hrest]

end Utf8

-- ==== Trimming

namespace Text

open Utf8

/-- Trimming a trimmed text changes nothing. -/
theorem trim_trim (text : Bytes) : trim (trim text) = trim text := by
  -- the glyphs without the blanks in front, and then also without those at the end
  let front := (decode text).dropWhile isBlankGlyph
  let inner := front.rdropWhile isBlankGlyph
  have hfront : decode (front.flatMap Glyph.bytes) = front :=
    decode_right List.takeWhile_append_dropWhile.symm
  have hinner : decode (inner.flatMap Glyph.bytes) = inner := by
    refine decode_left (hfront.trans (?_ : front = inner ++ front.rtakeWhile isBlankGlyph))
    exact (List.rdropWhile_append_rtakeWhile ..).symm
  have hleft : inner.dropWhile isBlankGlyph = inner := by
    refine List.dropWhile_eq_self_iff.mpr fun hpos => ?_
    rw [(List.rdropWhile_prefix isBlankGlyph front).getElem hpos]
    exact List.dropWhile_get_zero_not isBlankGlyph (decode text) _
  have hright : inner.rdropWhile isBlankGlyph = inner :=
    List.rdropWhile_idempotent isBlankGlyph front
  calc trim (inner.flatMap Glyph.bytes)
      = (((decode (inner.flatMap Glyph.bytes)).dropWhile isBlankGlyph).rdropWhile
          isBlankGlyph).flatMap Glyph.bytes := rfl
    _ = inner.flatMap Glyph.bytes := by rw [hinner, hleft, hright]

end Text

end Lox
