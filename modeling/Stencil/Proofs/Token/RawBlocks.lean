import Mathlib.Data.List.Infix
import Stencil.Proofs.Token.Printing

/-!
# The end of a raw block

A raw block ends at the closing mark that belongs to its opening tag: the marks in front of it are
nested. There is at most one such mark, and it is found if there is one. It can be found by a position
that moves from mark to mark, and counts the raw blocks that are open.

## Main definitions

* `Token.IsRawContent` - a text in front of a closing mark, with nested marks in it
* `Token.Closes` - a text that has a number of closing marks left over
* `Token.findMark?` - the first place of a mark in a text
* `Token.captureRaw?` - the content of a raw block, found by a position that moves from mark to mark
* `Token.IsUnmarked` - no mark of raw blocks begins in front of a position

Main statements: `Token.captureRaw?_eq`, `Token.takeRaw?_shortest`.
-/

namespace Stencil

open Text

namespace Token

variable {text inner body rest mark : List Char} {depth i : Nat} {c : Char}

/-- A text starts with a content of a raw block and the mark that closes the block. -/
def IsRawContent (text body : List Char) : Prop :=
  body ++ rawClose <+: text ∧ IsNested body

/-- The marks in a text are nested, except that there is a closing mark for each of the raw blocks
that are open in front of it. -/
inductive Closes : Nat → List Char → Prop where
  | nested {text : List Char} (h : IsNested text) : Closes 0 text
  | close {depth : Nat} {front back : List Char} (hfront : IsNested front)
      (hback : Closes depth back) : Closes (depth + 1) (front ++ rawClose ++ back)

theorem rawOpen_length : rawOpen.length = 8 := rfl

theorem rawClose_length : rawClose.length = 8 := rfl

/-- The first place of a mark in a text. -/
def findMark? (mark text : List Char) : Option Nat :=
  (splitAtMark? mark text).map fun (before, _) => before.length

/-- Where a mark is found the text holds it. -/
theorem drop_of_findMark? (h : findMark? mark text = some i) :
    text.drop i = mark ++ text.drop (i + mark.length) := by
  simp only [findMark?, Option.map_eq_some_iff, Prod.exists] at h
  obtain ⟨before, after, hsplit, rfl⟩ := h
  rw [eq_append_of_splitAtMark? hsplit, ← List.length_append, List.drop_left, List.append_assoc,
    List.drop_left]

theorem length_of_findMark? (h : findMark? mark text = some i) :
    i + mark.length ≤ text.length := by
  simp only [findMark?, Option.map_eq_some_iff, Prod.exists] at h
  obtain ⟨before, after, hsplit, rfl⟩ := h
  rw [eq_append_of_splitAtMark? hsplit, List.length_append, List.length_append]
  omega

/-- The content of a raw block, given the number of raw blocks that are open in front of a position in
the text behind its opening tag, and the number of characters up to the end of its closing tag. The
position moves from mark to mark. -/
def captureRaw? (text : List Char) (depth i : Nat) : Option (List Char × Nat) :=
  match _hclose : findMark? rawClose (text.drop i) with
  | none => none
  | some close =>
    match _hopen : (findMark? rawOpen (text.drop i)).filter (· < close) with
    | some opening => captureRaw? text (depth + 1) (i + opening + rawOpen.length)
    | none =>
      match depth with
      | 0 => some (text.take (i + close), i + close + rawClose.length)
      | depth + 1 => captureRaw? text depth (i + close + rawClose.length)
termination_by text.length - i
decreasing_by
  · have hlength := length_of_findMark? (Option.filter_eq_some_iff.1 _hopen).1
    rw [rawOpen_length, List.length_drop] at hlength
    rw [rawOpen_length]
    omega
  · have hlength := length_of_findMark? _hclose
    rw [rawClose_length, List.length_drop] at hlength
    rw [rawClose_length]
    omega

/-! ### Texts by their marks -/

/-- A text is empty, or it starts with a mark of raw blocks or with a character at which no mark
stands. -/
theorem mark_induction {P : List Char → Prop} (nil : P [])
    (opening : ∀ text, P text → P (rawOpen ++ text))
    (closing : ∀ text, P text → P (rawClose ++ text))
    (char : ∀ c text, ¬ rawOpen <+: c :: text → ¬ rawClose <+: c :: text → P text → P (c :: text))
    (text : List Char) : P text := by
  by_cases hopen : rawOpen <+: text
  · obtain ⟨rest, hrest⟩ := hopen
    exact hrest ▸ opening rest (mark_induction nil opening closing char rest)
  · by_cases hclose : rawClose <+: text
    · obtain ⟨rest, hrest⟩ := hclose
      exact hrest ▸ closing rest (mark_induction nil opening closing char rest)
    · cases text with
      | nil => exact nil
      | cons c text =>
        exact char c text hopen hclose (mark_induction nil opening closing char text)
termination_by text.length
decreasing_by
  · rw [← hrest, List.length_append]
    exact Nat.lt_add_of_pos_left (by decide)
  · rw [← hrest, List.length_append]
    exact Nat.lt_add_of_pos_left (by decide)
  · exact Nat.lt_succ_self text.length

/-- A raw block in front of a text takes none of its closing marks. -/
theorem Closes.block (hinner : IsNested inner) (h : Closes depth text) :
    Closes depth (rawOpen ++ inner ++ rawClose ++ text) := by
  cases h with
  | nested h => exact .nested (.block hinner h)
  | close hfront hback =>
    have hclose := Closes.close (.block hinner hfront) hback
    rwa [List.append_assoc, List.append_assoc, ← List.append_assoc _ rawClose] at hclose

/-- A character at which no mark stands in front of a text. -/
theorem Closes.char (hopen : ¬ rawOpen <+: c :: text) (hclose : ¬ rawClose <+: c :: text)
    (h : Closes depth text) : Closes depth (c :: text) := by
  cases h with
  | nested h => exact .nested (.char hopen hclose h)
  | @close depth front back hfront hback =>
    have hprefix : c :: front <+: c :: (front ++ rawClose ++ back) := by
      rw [List.append_assoc]
      exact List.prefix_append (c :: front) _
    exact .close (.char (fun h => hopen (h.trans hprefix)) (fun h => hclose (h.trans hprefix)) hfront)
      hback

/-! ### What is taken -/

/-- The text that is taken has a closing mark for each raw block that is open in front of it. -/
theorem closes_of_takeRaw? (h : takeRaw? depth text = some (body, rest)) : Closes depth body := by
  induction text using mark_induction generalizing depth body with
  | nil => cases h
  | opening text ih =>
    rw [takeRaw?_rawOpen] at h
    simp only [Option.map_eq_some_iff, Prod.exists, Prod.mk.injEq] at h
    obtain ⟨body, _, hraw, rfl, rfl⟩ := h
    cases ih hraw with
    | close hfront hback =>
      rw [← List.append_assoc, ← List.append_assoc]
      exact hback.block hfront
  | closing text ih =>
    cases depth with
    | zero =>
      have hnil : takeRaw? 0 (rawClose ++ text) = some ([], text) := rfl
      obtain ⟨rfl, -⟩ := Prod.mk.inj (Option.some.inj (hnil.symm.trans h))
      exact .nested .nil
    | succ depth =>
      rw [takeRaw?_rawClose] at h
      simp only [Option.map_eq_some_iff, Prod.exists, Prod.mk.injEq] at h
      obtain ⟨body, _, hraw, rfl, rfl⟩ := h
      exact .close .nil (ih hraw)
  | char c text hopen hclose ih =>
    rw [takeRaw?_char hopen hclose] at h
    simp only [Option.map_eq_some_iff, Prod.exists, Prod.mk.injEq] at h
    obtain ⟨body, _, hraw, rfl, rfl⟩ := h
    have hprefix : c :: body <+: c :: text := by
      rw [eq_append_of_takeRaw? hraw, List.append_assoc]
      exact List.prefix_append (c :: body) _
    exact (ih hraw).char (fun h => hopen (h.trans hprefix)) fun h => hclose (h.trans hprefix)

/-- What is taken off a text is a content of a raw block, and it is taken wherever it stands in front
of a closing mark. -/
theorem takeRaw?_eq_some_iff :
    takeRaw? 0 text = some (body, rest) ↔ text = body ++ rawClose ++ rest ∧ IsNested body := by
  constructor
  · intro h
    refine ⟨eq_append_of_takeRaw? h, ?_⟩
    cases closes_of_takeRaw? h with
    | nested h => exact h
  · rintro ⟨rfl, h⟩
    exact takeRaw?_append (takeRaw?_closed h) rest

theorem exists_takeRaw?_iff :
    (∃ rest, takeRaw? 0 text = some (body, rest)) ↔ IsRawContent text body := by
  constructor
  · rintro ⟨rest, h⟩
    obtain ⟨rfl, hbody⟩ := takeRaw?_eq_some_iff.1 h
    exact ⟨List.prefix_append _ rest, hbody⟩
  · rintro ⟨⟨rest, rfl⟩, hbody⟩
    exact ⟨rest, takeRaw?_eq_some_iff.2 ⟨rfl, hbody⟩⟩

/-- A text starts with at most one content of a raw block. -/
theorem IsRawContent.unique {body' : List Char} (h : IsRawContent text body)
    (h' : IsRawContent text body') : body = body' := by
  obtain ⟨rest, hraw⟩ := exists_takeRaw?_iff.2 h
  obtain ⟨rest', hraw'⟩ := exists_takeRaw?_iff.2 h'
  exact (Prod.mk.inj (Option.some.inj (hraw.symm.trans hraw'))).1

/-! ### Positions -/

/-- In front of the place that is found no mark begins. -/
theorem not_prefix_of_findMark? {n : Nat} (hmark : mark ≠ [])
    (h : findMark? mark text = some i) (hn : n < i) : ¬ mark <+: text.drop n := by
  simp only [findMark?, Option.map_eq_some_iff, Prod.exists] at h
  obtain ⟨before, after, hsplit, rfl⟩ := h
  obtain ⟨rfl, hfirst⟩ := (splitAtMark?_eq_some_iff hmark).1 hsplit
  intro hprefix
  have hplace : before ++ mark.dropLast <+: before ++ mark ++ after :=
    append_dropLast_prefix before mark after
  -- A mark that begins in front of the place ends in front of the last character of the one there.
  have hlength : mark.length ≤ ((before ++ mark.dropLast).drop n).length := by
    rw [List.length_drop, List.length_append, List.length_dropLast]
    omega
  have hinside := List.prefix_of_prefix_length_le hprefix (hplace.drop n) hlength
  exact hfirst (hinside.isInfix.trans (List.drop_suffix n _).isInfix)

theorem not_prefix_of_findMark?_eq_none (h : findMark? mark text = none) (n : Nat) :
    ¬ mark <+: text.drop n := by
  intro hprefix
  refine not_isInfix_of_splitAtMark?_eq_none (Option.map_eq_none_iff.1 h) ?_
  exact hprefix.isInfix.trans (List.drop_suffix n text).isInfix

/-- No mark of raw blocks begins in front of a position. -/
def IsUnmarked (text : List Char) (i : Nat) : Prop :=
  ∀ n < i, ¬ rawOpen <+: text.drop n ∧ ¬ rawClose <+: text.drop n

/-- Characters at which no mark stands are taken. -/
theorem takeRaw?_drop (h : IsUnmarked text i) (depth : Nat) :
    takeRaw? depth text =
      (takeRaw? depth (text.drop i)).map fun (body, rest) => (text.take i ++ body, rest) := by
  induction i generalizing text with
  | zero => simp
  | succ i ih =>
    cases text with
    | nil => simp [takeRaw?]
    | cons c text =>
      obtain ⟨hopen, hclose⟩ := h 0 (Nat.succ_pos i)
      rw [takeRaw?_char hopen hclose, ih fun n hn => h (n + 1) (Nat.succ_lt_succ hn), Option.map_map]
      rfl

/-- A mark in front of which no mark of raw blocks begins is the first thing that counts. -/
theorem takeRaw?_findMark (hfind : findMark? mark text = some i) (hbefore : IsUnmarked text i)
    (depth : Nat) :
    takeRaw? depth text = (takeRaw? depth (mark ++ text.drop (i + mark.length))).map
      fun (body, rest) => (text.take i ++ body, rest) := by
  rw [takeRaw?_drop hbefore, drop_of_findMark? hfind]

/-- The first closing mark is the first mark if no opening one is found in front of it. -/
theorem isUnmarked_of_filter_eq_none {close : Nat} (hclose : findMark? rawClose text = some close)
    (hopen : (findMark? rawOpen text).filter (· < close) = none) : IsUnmarked text close := by
  intro n hn
  refine ⟨?_, not_prefix_of_findMark? (by decide) hclose hn⟩
  cases hfind : findMark? rawOpen text with
  | none => exact not_prefix_of_findMark?_eq_none hfind n
  | some opening =>
    have hle : close ≤ opening := by simpa [hfind] using hopen
    exact not_prefix_of_findMark? (by decide) hfind (Nat.lt_of_lt_of_le hn hle)

/-- The first opening mark is the first mark if it is found in front of the first closing one. -/
theorem isUnmarked_of_filter_eq_some {close opening : Nat}
    (hclose : findMark? rawClose text = some close)
    (hopen : (findMark? rawOpen text).filter (· < close) = some opening) :
    IsUnmarked text opening := by
  obtain ⟨hfind, hlt⟩ := Option.filter_eq_some_iff.1 hopen
  intro n hn
  have hn' : n < close := Nat.lt_trans hn (of_decide_eq_true hlt)
  exact ⟨not_prefix_of_findMark? (by decide) hfind hn,
    not_prefix_of_findMark? (by decide) hclose hn'⟩

/-- What is captured if a content is taken behind a position. -/
def captured (text : List Char) (i : Nat) : List Char × List Char → List Char × Nat
  | (body, _) => (text.take i ++ body, i + body.length + rawClose.length)

/-- The position moves behind a mark: what it has passed, and the mark, are captured as well. -/
theorem map_captured {n : Nat} (h : findMark? mark (text.drop i) = some n)
    (raw : Option (List Char × List Char)) :
    raw.map (captured text (i + n + mark.length)) =
      ((raw.map fun (body, rest) => (mark ++ body, rest)).map
        fun (body, rest) => ((text.drop i).take n ++ body, rest)).map (captured text i) := by
  have hpassed : ((text.drop i).take n).length = n := by
    have hlength := length_of_findMark? h
    rw [List.length_take]
    omega
  have htake : text.take (i + n + mark.length) = text.take i ++ ((text.drop i).take n ++ mark) := by
    rw [Nat.add_assoc, List.take_add, List.take_add, drop_of_findMark? h, List.take_left]
  rw [Option.map_map, Option.map_map]
  congr 1
  funext ⟨body, rest⟩
  simp only [Function.comp_apply, captured]
  rw [htake, List.length_append, List.length_append, hpassed]
  simp only [List.append_assoc, Nat.add_assoc]

/-- Moving from mark to mark takes the same content as moving from character to character. -/
theorem captureRaw?_eq (text : List Char) (depth i : Nat) :
    captureRaw? text depth i = (takeRaw? depth (text.drop i)).map (captured text i) := by
  fun_induction captureRaw? text depth i with
  | case1 depth i hclose =>
    -- A content that is taken has a closing mark behind it.
    cases hraw : takeRaw? depth (text.drop i) with
    | none => rfl
    | some parts =>
      obtain ⟨body, rest⟩ := parts
      refine absurd ?_ (not_prefix_of_findMark?_eq_none hclose body.length)
      rw [eq_append_of_takeRaw? hraw, List.append_assoc, List.drop_left]
      exact List.prefix_append _ _
  | case2 depth i close hclose opening hopen ih =>
    have hbefore := isUnmarked_of_filter_eq_some hclose hopen
    obtain ⟨hfind, -⟩ := Option.filter_eq_some_iff.1 hopen
    rw [ih, map_captured hfind, takeRaw?_findMark hfind hbefore, takeRaw?_rawOpen, List.drop_drop,
      Nat.add_assoc]
  | case3 i close hclose hopen =>
    have hnil (rest : List Char) : takeRaw? 0 (rawClose ++ rest) = some ([], rest) := rfl
    have hlength := length_of_findMark? hclose
    have hbefore := isUnmarked_of_filter_eq_none hclose hopen
    rw [takeRaw?_findMark hclose hbefore, hnil, List.take_add]
    simp only [Option.map_some, captured, List.append_nil, List.length_take, Option.some.injEq,
      Prod.mk.injEq, true_and]
    omega
  | case4 i close hclose hopen depth ih =>
    have hbefore := isUnmarked_of_filter_eq_none hclose hopen
    rw [ih, map_captured hclose, takeRaw?_findMark hclose hbefore, takeRaw?_rawClose, List.drop_drop,
      Nat.add_assoc]

/-- **A raw block ends at the mark that belongs to it.** Its content is the shortest text with nested
marks in front of a closing mark, and what follows this mark is left over. None is found exactly if
there is no such text. The position that moves from mark to mark finds the same content, and the
number of characters up to the end of the mark. -/
theorem takeRaw?_shortest (text : List Char) :
    (∀ body rest, takeRaw? 0 text = some (body, rest) ↔
      (IsRawContent text body ∧ ∀ body', IsRawContent text body' → body.length ≤ body'.length) ∧
        rest = text.drop (body.length + rawClose.length)) ∧
    (takeRaw? 0 text = none ↔ ¬ ∃ body, IsRawContent text body) ∧
    captureRaw? text 0 0 =
      (takeRaw? 0 text).map fun (body, _) => (body, body.length + rawClose.length) := by
  refine ⟨fun body rest => ⟨fun h => ?_, ?_⟩, ⟨fun h => ?_, fun h => ?_⟩, ?_⟩
  · have hbody := exists_takeRaw?_iff.1 ⟨rest, h⟩
    refine ⟨⟨hbody, fun body' hbody' => ?_⟩, ?_⟩
    · exact Nat.le_of_eq (congrArg List.length (hbody.unique hbody'))
    · rw [(takeRaw?_eq_some_iff.1 h).1, ← List.length_append, List.drop_left]
  · rintro ⟨⟨⟨⟨behind, rfl⟩, hbody⟩, -⟩, rfl⟩
    rw [← List.length_append, List.drop_left]
    exact takeRaw?_eq_some_iff.2 ⟨rfl, hbody⟩
  · rintro ⟨body, hbody⟩
    obtain ⟨rest, hraw⟩ := exists_takeRaw?_iff.2 hbody
    cases h.symm.trans hraw
  · cases hraw : takeRaw? 0 text with
    | none => rfl
    | some parts => exact absurd ⟨parts.1, exists_takeRaw?_iff.1 ⟨parts.2, hraw⟩⟩ h
  · rw [captureRaw?_eq, List.drop_zero]
    congr 1
    funext ⟨body, rest⟩
    simp only [captured, List.take_zero, List.nil_append, Nat.zero_add]

/-- A raw block in a raw block: the first closing mark belongs to the inner one. -/
theorem takeRaw?_shortest_block :
    let text := "a".toList ++ rawOpen ++ "b".toList ++ rawClose ++ "c".toList ++ rawClose ++ "d".toList
    let body := "a".toList ++ rawOpen ++ "b".toList ++ rawClose ++ "c".toList
    captureRaw? text 0 0 = some (body, 27) ∧ IsRawContent text body ∧
      ∀ body', IsRawContent text body' → body.length ≤ body'.length := by
  intro text body
  have hraw : takeRaw? 0 text = some (body, "d".toList) := by decide +kernel
  obtain ⟨htaken, -, hcapture⟩ := takeRaw?_shortest text
  rw [hraw] at hcapture
  exact ⟨hcapture, ((htaken body _).1 hraw).1⟩

end Token

end Stencil
