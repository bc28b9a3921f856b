import BraceTemplate.Proofs.Text.Boundary
import BraceTemplate.Text.Quoted

/-!
# What quoted texts tell

A quoted text tells its content: no two characters are written alike, and none
is written with the beginning of another. So contents can be read off again, one
character at a time up to the closing quote. A quoted text stays on one line.
-/

namespace BraceTemplate.Text

/-! ### Code points -/

theorem digitChar_inj : ∀ m < 16, ∀ n < 16, m.digitChar = n.digitChar → m = n := by decide

/-- Hexadecimal digits tell their number. -/
theorem toDigits_inj {m n : Nat} (h : Nat.toDigits 16 m = Nat.toDigits 16 n) : m = n := by
  induction m using Nat.strongRecOn generalizing n with
  | ind m ih =>
    rw [Nat.toDigits_eq_if (by decide), Nat.toDigits_eq_if (n := n) (by decide)] at h
    by_cases hm : m < 16
    · by_cases hn : n < 16
      · rw [if_pos hm, if_pos hn] at h
        exact digitChar_inj m hm n hn (List.cons.inj h).1
      · rw [if_pos hm, if_neg hn] at h
        exact absurd (List.append_inj' (show [] ++ [m.digitChar] = _ from h) rfl).1.symm
          Nat.toDigits_ne_nil
    · by_cases hn : n < 16
      · rw [if_neg hm, if_pos hn] at h
        exact absurd (List.append_inj' (show _ = [] ++ [n.digitChar] from h) rfl).1
          Nat.toDigits_ne_nil
      · rw [if_neg hm, if_neg hn] at h
        obtain ⟨hfront, hlast⟩ := List.append_inj' h rfl
        have hdiv := ih (m / 16) (by omega) hfront
        have hmod := digitChar_inj _ (Nat.mod_lt m (by decide)) _ (Nat.mod_lt n (by decide))
          (List.cons.inj hlast).1
        omega

theorem exists_digitChar {c : Char} {n : Nat} (h : c ∈ Nat.toDigits 16 n) :
    ∃ m < 16, c = m.digitChar := by
  induction n using Nat.strongRecOn with
  | ind n ih =>
    rw [Nat.toDigits_eq_if (by decide)] at h
    by_cases hn : n < 16
    · rw [if_pos hn, List.mem_singleton] at h
      exact ⟨n, hn, h⟩
    · rw [if_neg hn, List.mem_append, List.mem_singleton] at h
      rcases h with hfront | hlast
      · exact ih (n / 16) (by omega) hfront
      · exact ⟨n % 16, Nat.mod_lt n (by decide), hlast⟩

theorem digitChar_ne : ∀ m < 16, m.digitChar ≠ '}' ∧ m.digitChar ≠ '\n' := by decide

/-! ### Characters -/

/-- Characters that are written as a letter behind a backslash, with the letter. -/
def letterEscapes : List (Char × Char) :=
  [('\x00', '0'), ('\t', 't'), ('\r', 'r'), ('\n', 'n'), ('"', '"'), ('\\', '\\')]

/-- The three ways in which a character may be written. -/
inductive Writes : Char → List Char → Prop
  | plain {c : Char} (h : c ∉ letterEscapes.map Prod.fst) : Writes c [c]
  | letter {c letter : Char} (h : (c, letter) ∈ letterEscapes) : Writes c ['\\', letter]
  | codePoint (c : Char) : Writes c (codePointEscape c)

theorem writes_escape (c : Char) : Writes c (escape c) := by
  fun_cases escape c with
  | case1 => exact .letter (by decide)
  | case2 => exact .letter (by decide)
  | case3 => exact .letter (by decide)
  | case4 => exact .letter (by decide)
  | case5 => exact .letter (by decide)
  | case6 => exact .letter (by decide)
  | case7 => exact .codePoint c
  | case8 => exact .plain (by simp_all [letterEscapes])

theorem letterEscapes_inj : ∀ x ∈ letterEscapes, ∀ y ∈ letterEscapes, x.2 = y.2 → x.1 = y.1 := by
  decide

theorem letterEscapes_ne : ∀ x ∈ letterEscapes, x.2 ≠ 'u' ∧ x.2 ≠ '\n' := by decide

theorem ne_backslash_of_plain {c : Char} (h : c ∉ letterEscapes.map Prod.fst) : c ≠ '\\' := by
  rintro rfl
  exact h (by decide)

/-- Only one character is written at the front of a text. -/
theorem Writes.append_inj {c d : Char} {written other rest others : List Char}
    (hc : Writes c written) (hd : Writes d other) (h : written ++ rest = other ++ others) :
    c = d ∧ rest = others := by
  cases hc with
  | plain hc =>
    have hne := ne_backslash_of_plain hc
    cases hd with
    | plain hd => exact List.cons.inj h
    | letter hd => exact absurd (List.cons.inj h).1 hne
    | codePoint => exact absurd (List.cons.inj h).1 hne
  | letter hc =>
    cases hd with
    | plain hd => exact absurd (List.cons.inj h).1.symm (ne_backslash_of_plain hd)
    | letter hd =>
      obtain ⟨hletter, hrest⟩ := List.cons.inj (List.cons.inj h).2
      exact ⟨letterEscapes_inj _ hc _ hd hletter, hrest⟩
    | codePoint => exact absurd (List.cons.inj (List.cons.inj h).2).1 (letterEscapes_ne _ hc).1
  | codePoint =>
    cases hd with
    | plain hd => exact absurd (List.cons.inj h).1.symm (ne_backslash_of_plain hd)
    | letter hd =>
      exact absurd (List.cons.inj (List.cons.inj h).2).1.symm (letterEscapes_ne _ hd).1
    | codePoint =>
      have hdigits : ∀ n, ∀ x ∈ Nat.toDigits 16 n, (x != '}') = true := by
        intro n x hx
        obtain ⟨m, hm, rfl⟩ := exists_digitChar hx
        exact bne_iff_ne.2 (digitChar_ne m hm).1
      simp only [codePointEscape, List.append_assoc, List.append_cancel_left_eq] at h
      obtain ⟨hsame, hrest⟩ := append_inj_of_head (hdigits _) (hdigits _) (by simp) (by simp) h
      exact ⟨Char.toNat_inj.1 (toDigits_inj hsame), (List.cons.inj hrest).2⟩

/-- What is written of a character does not start with a quote. -/
theorem Writes.exists_cons {c : Char} {written : List Char} (h : Writes c written) :
    ∃ first more, written = first :: more ∧ first ≠ '"' := by
  cases h with
  | plain hc =>
    refine ⟨c, [], rfl, ?_⟩
    rintro rfl
    exact hc (by decide)
  | letter hc => exact ⟨'\\', _, rfl, by decide⟩
  | codePoint => exact ⟨'\\', _, rfl, by decide⟩

theorem Writes.not_break {c : Char} {written : List Char} (h : Writes c written) :
    '\n' ∉ written := by
  cases h with
  | plain hc =>
    rw [List.mem_singleton]
    rintro rfl
    exact hc (by decide)
  | letter hc =>
    rw [List.mem_cons, List.mem_singleton, not_or]
    exact ⟨by decide, (letterEscapes_ne _ hc).2.symm⟩
  | codePoint =>
    rw [codePointEscape, List.mem_append, List.mem_append]
    rintro ((hfront | hdigit) | hlast)
    · exact absurd hfront (by decide)
    · obtain ⟨m, hm, heq⟩ := exists_digitChar hdigit
      exact (digitChar_ne m hm).2 heq.symm
    · exact absurd hlast (by decide)

/-! ### Texts -/

/-- A quoted content ends at the first quote that is not part of a character. -/
theorem flatMap_escape_inj {as bs : List Char}
    (h : as.flatMap escape ++ ['"'] = bs.flatMap escape ++ ['"']) : as = bs := by
  induction as generalizing bs with
  | nil =>
    cases bs with
    | nil => rfl
    | cons b bs =>
      obtain ⟨first, more, hwritten, hne⟩ := (writes_escape b).exists_cons
      rw [List.flatMap_cons, hwritten] at h
      exact absurd (List.cons.inj h).1.symm hne
  | cons a as ih =>
    cases bs with
    | nil =>
      obtain ⟨first, more, hwritten, hne⟩ := (writes_escape a).exists_cons
      rw [List.flatMap_cons, hwritten] at h
      exact absurd (List.cons.inj h).1 hne
    | cons b bs =>
      rw [List.flatMap_cons, List.flatMap_cons, List.append_assoc, List.append_assoc] at h
      obtain ⟨rfl, hrest⟩ := (writes_escape a).append_inj (writes_escape b) h
      rw [ih hrest]

theorem quote_inj {s t : String} (h : quote s = quote t) : s = t := by
  rw [← String.toList_inj, quote, quote, String.toList_ofList, String.toList_ofList] at h
  exact String.toList_inj.1 (flatMap_escape_inj (List.cons.inj h).2)

theorem not_break_quote (s : String) : '\n' ∉ (quote s).toList := by
  rw [quote, String.toList_ofList, List.cons_append, List.mem_cons, List.mem_append,
    List.mem_flatMap]
  rintro (hfront | ⟨c, -, hc⟩ | hlast)
  · exact absurd hfront (by decide)
  · exact (writes_escape c).not_break hc
  · exact absurd hlast (by decide)

end BraceTemplate.Text
