/-!
# Blank characters

The characters that separate words, and the removal of such characters from the
two ends of a text. Texts are lists of characters here and in the other readers of
this library; a `String` is turned into one at the border.

## Main definitions

* `isBlank` - the Unicode property `White_Space`
* `trimStart`, `trimEnd`, `trim` - a text without the blanks at its ends
-/

namespace Stencil.Text

/-- The characters with the Unicode property `White_Space`. -/
def isBlank (c : Char) : Bool :=
  let n := c.toNat
  (9 ≤ n && n ≤ 13) || n == 0x20 || n == 0x85 || n == 0xA0 || n == 0x1680 ||
    (0x2000 ≤ n && n ≤ 0x200A) || n == 0x2028 || n == 0x2029 || n == 0x202F ||
    n == 0x205F || n == 0x3000

/-- A text without its leading blanks. -/
def trimStart (text : List Char) : List Char :=
  text.dropWhile isBlank

/-- A text without its trailing blanks. -/
def trimEnd (text : List Char) : List Char :=
  (text.reverse.dropWhile isBlank).reverse

/-- A text without the blanks at both of its ends. -/
def trim (text : List Char) : List Char :=
  trimEnd (trimStart text)

theorem length_trimStart_le (text : List Char) : (trimStart text).length ≤ text.length :=
  (List.dropWhile_suffix isBlank).length_le

theorem length_trim_le (text : List Char) : (trim text).length ≤ text.length := by
  have hend := length_trimStart_le (trimStart text).reverse
  rw [List.length_reverse] at hend
  rw [trim, trimEnd, List.length_reverse]
  exact Nat.le_trans hend (length_trimStart_le text)

/-- A word ends where a character stands that is none of its kind. -/
theorem span_append {p : Char → Bool} {word rest : List Char} (hword : ∀ c ∈ word, p c)
    (hrest : ∀ c ∈ rest.head?, ¬ p c) :
    (word ++ rest).takeWhile p = word ∧ (word ++ rest).dropWhile p = rest := by
  rw [List.takeWhile_append_of_pos hword, List.dropWhile_append_of_pos hword]
  cases rest with
  | nil => exact ⟨List.append_nil _, rfl⟩
  | cons c rest =>
    have hc : ¬ p c := hrest c rfl
    rw [List.takeWhile_cons_of_neg hc, List.dropWhile_cons_of_neg hc]
    exact ⟨List.append_nil _, rfl⟩

theorem trimEnd_append {trail : List Char} (htrail : ∀ c ∈ trail, isBlank c) (text : List Char) :
    trimEnd (text ++ trail) = trimEnd text := by
  have hreverse : ∀ c ∈ trail.reverse, isBlank c := by simpa using htrail
  rw [trimEnd, List.reverse_append, List.dropWhile_append_of_pos hreverse, trimEnd]

/-- Blanks at the ends do not count. -/
theorem trim_append {lead trail : List Char} (hlead : ∀ c ∈ lead, isBlank c)
    (htrail : ∀ c ∈ trail, isBlank c) (text : List Char) :
    trim (lead ++ text ++ trail) = trim text := by
  rw [trim, trimStart, List.append_assoc, List.dropWhile_append_of_pos hlead]
  induction text with
  | nil =>
    rw [List.nil_append, ← List.append_nil trail, List.dropWhile_append_of_pos htrail]
    rfl
  | cons c text ih =>
    by_cases hc : isBlank c
    · rw [List.cons_append, List.dropWhile_cons_of_pos hc, ih, trim, trim, trimStart, trimStart,
        List.dropWhile_cons_of_pos hc]
    · rw [List.cons_append, List.dropWhile_cons_of_neg hc, ← List.cons_append,
        trimEnd_append htrail, trim, trimStart, List.dropWhile_cons_of_neg hc]

/-- A text without blanks at its ends stays as it is. -/
theorem trim_eq_self {text : List Char} (hhead : ∀ c ∈ text.head?, ¬ isBlank c)
    (hlast : ∀ c ∈ text.getLast?, ¬ isBlank c) : trim text = text := by
  have hdrop {text : List Char} (h : ∀ c ∈ text.head?, ¬ isBlank c) :
      text.dropWhile isBlank = text := by
    cases text with
    | nil => rfl
    | cons c text => exact List.dropWhile_cons_of_neg (h c rfl)
  rw [trim, trimStart, hdrop hhead, trimEnd, hdrop (by rwa [List.head?_reverse]),
    List.reverse_reverse]

theorem trim_eq_self_of_forall {text : List Char} (h : ∀ c ∈ text, ¬ isBlank c) :
    trim text = text :=
  trim_eq_self (fun c hc => h c (List.mem_of_mem_head? hc))
    fun c hc => h c (List.mem_of_mem_getLast? hc)

/-- A text is its part without trailing blanks, and blanks. -/
theorem exists_eq_trimEnd_append (text : List Char) :
    ∃ trail, text = trimEnd text ++ trail ∧ ∀ c ∈ trail, isBlank c := by
  refine ⟨(text.reverse.takeWhile isBlank).reverse, ?_, ?_⟩
  · rw [trimEnd, ← List.reverse_append, List.takeWhile_append_dropWhile, List.reverse_reverse]
  · intro c hc
    exact List.all_eq_true.1 List.all_takeWhile c (List.mem_reverse.1 hc)

/-- In front of a character that is no blank nothing is taken off. -/
theorem exists_trim_cons {c : Char} (hc : ¬ isBlank c) (text : List Char) :
    ∃ rest, trim (c :: text) = c :: rest ∧ trim rest = trim text := by
  obtain ⟨trail, htext, htrail⟩ := exists_eq_trimEnd_append text
  refine ⟨trimEnd text, ?_, ?_⟩
  · rw [trim, trimStart, List.dropWhile_cons_of_neg hc, trimEnd, List.reverse_cons,
      List.dropWhile_append]
    split
    · next hnil =>
      rw [List.isEmpty_iff] at hnil
      simp [trimEnd, hnil, hc]
    · simp [trimEnd]
  · have hends := @trim_append [] trail (by simp) htrail (trimEnd text)
    rw [List.nil_append, ← htext] at hends
    exact hends.symm

/-- The number of line feeds in a text. -/
def lineFeeds (text : List Char) : Nat :=
  text.count '\n'

theorem lineFeeds_append (a b : List Char) :
    lineFeeds (a ++ b) = lineFeeds a + lineFeeds b := by
  simp [lineFeeds]

end Stencil.Text
