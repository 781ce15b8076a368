import Holdem.Proofs.Json.Scalar
import Holdem.Record.Uuid

/-!
# Identifiers that were written are read back

The hyphenated text of an identifier is cut at its hyphens (`dehyphenate?_parts`), and its digits
have the values they were written for (`digits?_chars`).

Results: **`ofText?_text`**, and from it `text_injective`: no two identifiers have one text.
-/

namespace Holdem.Uuid

variable {a b c d e t : List Char} {x : Char} {n : Nat}

theorem digits?_chars (l : List (Fin 16)) : digits? (chars l) = some l := by
  induction l with
  | nil => rfl
  | cons k l ih =>
    have hdigit : digit? (Json.hexDigit k.val) = some k := by
      rw [digit?, Json.hexValue?_hexDigit k.isLt, Option.map_some, Fin.ofNat_val_eq_self]
    unfold digits? chars at ih ⊢
    rw [List.map_cons, List.mapM_cons, hdigit, ih]
    rfl

theorem drop_part (h : a.length = n) : (a ++ x :: t).drop (n + 1) = t := by
  rw [← List.drop_drop, List.drop_left' h, List.drop_one, List.tail_cons]

theorem getElem?_part (h : a.length = n) : (a ++ x :: t)[n]? = some x := by
  rw [List.getElem?_append_right (Nat.le_of_eq h), h, Nat.sub_self, List.getElem?_cons_zero]

theorem take_part (h : a.length = n) : (a ++ t).take n = a := List.take_left' h

/-- The parts between four hyphens, put together. -/
theorem dehyphenate?_parts (ha : a.length = 8) (hb : b.length = 4) (hc : c.length = 4)
    (hd : d.length = 4) (he : e.length = 12) :
    dehyphenate? (a ++ '-' :: (b ++ '-' :: (c ++ '-' :: (d ++ '-' :: e)))) =
      some (a ++ b ++ c ++ d ++ e) := by
  generalize hs : a ++ '-' :: (b ++ '-' :: (c ++ '-' :: (d ++ '-' :: e))) = s
  have hlength : s.length = 36 := by
    rw [← hs]
    simp only [List.length_append, List.length_cons, ha, hb, hc, hd, he]
  -- what is left of the text behind each hyphen
  have hfirst : s.drop 9 = b ++ '-' :: (c ++ '-' :: (d ++ '-' :: e)) := by rw [← hs, drop_part ha]
  have hsecond : s.drop 14 = c ++ '-' :: (d ++ '-' :: e) := by
    rw [show 14 = 9 + (4 + 1) by rfl, ← List.drop_drop, hfirst, drop_part hb]
  have hthird : s.drop 19 = d ++ '-' :: e := by
    rw [show 19 = 14 + (4 + 1) by rfl, ← List.drop_drop, hsecond, drop_part hc]
  have hfourth : s.drop 24 = e := by
    rw [show 24 = 19 + (4 + 1) by rfl, ← List.drop_drop, hthird, drop_part hd]
  have hhyphens : [8, 13, 18, 23].all (fun i => s[i]? = some '-') = true := by
    have h8 : s[8]? = some '-' := by rw [← hs, getElem?_part ha]
    have h13 : s[9 + 4]? = some '-' := by rw [← List.getElem?_drop, hfirst, getElem?_part hb]
    have h18 : s[14 + 4]? = some '-' := by rw [← List.getElem?_drop, hsecond, getElem?_part hc]
    have h23 : s[19 + 4]? = some '-' := by rw [← List.getElem?_drop, hthird, getElem?_part hd]
    simp [h8, h13, h18, h23]
  unfold dehyphenate?
  rw [if_pos ⟨hlength, hhyphens⟩]
  simp only [hfirst, hsecond, hthird, hfourth, List.drop_zero]
  rw [take_part hb, take_part hc, take_part hd, List.take_of_length_le (Nat.le_of_eq he), ← hs,
    take_part ha]

theorem length_chars (l : List (Fin 16)) : (chars l).length = l.length := List.length_map _

/-- A text in none of the longer forms stands for itself. -/
theorem unwrap_of_length {s : List Char} (h : s.length = 36) : unwrap s = s := by
  unfold unwrap
  rw [if_neg (by rw [h]; exact fun hn => absurd hn.1 (by decide)),
    if_neg (by rw [h]; exact fun hn => absurd hn.1 (by decide))]

/-- **An identifier is read back** from its text. -/
theorem ofText?_text (u : Uuid) : ofText? u.text = some u := by
  have hpart : ∀ start size, start + size ≤ 32 →
      (chars ((u.digits.drop start).take size)).length = size := by
    intro start size h
    rw [length_chars, List.length_take, List.length_drop, u.length_digits]
    omega
  have hdehyphenate := dehyphenate?_parts (hpart 0 8 (by decide)) (hpart 8 4 (by decide))
    (hpart 12 4 (by decide)) (hpart 16 4 (by decide)) (hpart 20 12 (by decide))
  have hjoined : chars ((u.digits.drop 0).take 8) ++ chars ((u.digits.drop 8).take 4) ++
      chars ((u.digits.drop 12).take 4) ++ chars ((u.digits.drop 16).take 4) ++
      chars ((u.digits.drop 20).take 12) = chars u.digits := by
    unfold chars
    rw [← List.map_append, ← List.map_append, ← List.map_append, ← List.map_append, List.drop_zero,
      ← List.take_add, ← List.take_add, ← List.take_add, ← List.take_add,
      List.take_of_length_le (Nat.le_of_eq u.length_digits)]
  rw [hjoined] at hdehyphenate
  have htext : u.text.toList = chars ((u.digits.drop 0).take 8) ++ '-' ::
      (chars ((u.digits.drop 8).take 4) ++ '-' :: (chars ((u.digits.drop 12).take 4) ++ '-' ::
        (chars ((u.digits.drop 16).take 4) ++ '-' :: chars ((u.digits.drop 20).take 12)))) := by
    rw [text, String.toList_ofList]
    simp only [List.append_assoc, List.cons_append]
  have hlength : u.text.toList.length = 36 := by
    simp only [htext, List.length_append, List.length_cons, hpart 0 8 (by decide),
      hpart 8 4 (by decide), hpart 12 4 (by decide), hpart 16 4 (by decide),
      hpart 20 12 (by decide)]
  unfold ofText?
  rw [← htext] at hdehyphenate
  simp only [if_neg (show ¬ u.text.toList.length = 32 by omega), unwrap_of_length hlength,
    hdehyphenate, Option.bind_some, digits?_chars]
  exact dif_pos u.length_digits

/-- **No two identifiers have one text.** -/
theorem text_injective {u v : Uuid} (h : u.text = v.text) : u = v := by
  have hread := ofText?_text u
  rw [h, ofText?_text] at hread
  exact (Option.some.inj hread).symm

end Holdem.Uuid
