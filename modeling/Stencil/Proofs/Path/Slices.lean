import Stencil.Proofs.Path.Spelling

/-!
# Slices behind paths

A slice is the last part of the text of a path, so it can be put behind the text of any path that
has none: what stands in front of it is read as before. There is one exception. Two points at the
very end of a text are a step outwards like two points and a slash, but only as long as nothing
follows them; with a slice behind them they are read as empty segments.

## Main definitions

None of its own; the slice is the text between brackets that `Path.readSlice?` reads.

Main statements: `Path.readParts_append_slice`, `Path.parse_append_slice`.
-/

namespace Stencil

open Text

theorem Text.not_isBlank_of_trim_eq {text : List Char} (htrim : trim text = text) :
    ∀ c ∈ text.head?, ¬ isBlank c := by
  cases text with
  | nil => exact nofun
  | cons first rest =>
    rintro c hc hblank
    obtain rfl : first = c := Option.some.inj hc
    have hdrop : trim (first :: rest) = trim rest := by
      rw [trim, trimStart, List.dropWhile_cons_of_pos hblank, trim, trimStart]
    have hlength := length_trim_le rest
    rw [← hdrop, htrim, List.length_cons] at hlength
    omega

namespace Path

variable {text raw raw' rest body front inner more : List Char} {data : Bool} {p : Path}
  {s : Slice} {segments : List String}

/-! ### Steps outwards -/

/-- Nothing is taken off a text that neither starts with a step outwards nor is one. -/
theorem takeSteps_eq_zero_iff :
    takeSteps text = (0, text) ↔ ¬ ['.', '.', '/'] <+: text ∧ text ≠ ['.', '.'] := by
  fun_cases takeSteps text with
  | case1 rest => simp
  | case2 => simp
  | case3 text hstep hbare =>
    refine iff_of_true rfl ⟨?_, hbare⟩
    rintro ⟨rest, rfl⟩
    exact hstep rest rfl

/-- In front of a bracket the same steps are found as at the end of the text. -/
theorem takeSteps_append_of_eq_zero (h : takeSteps body = (0, body)) (more : List Char) :
    takeSteps (body ++ '[' :: more) = (0, body ++ '[' :: more) := by
  rw [takeSteps_eq_zero_iff] at h ⊢
  obtain ⟨hstep, -⟩ := h
  constructor
  · intro hprefix
    rcases List.prefix_or_prefix_of_prefix hprefix (List.prefix_append body _) with
      hinside | ⟨behind, hbehind⟩
    · exact hstep hinside
    · rw [← hbehind, List.prefix_append_right_inj] at hprefix
      cases behind with
      | nil => exact hstep (by rw [← hbehind, List.append_nil])
      | cons c behind =>
        obtain ⟨rfl, -⟩ := List.cons_prefix_cons.1 hprefix
        have hmark : '[' ∈ ['.', '.', '/'] := by simp [← hbehind]
        exact absurd hmark (by decide)
  · intro heq
    have hmark : '[' ∈ ['.', '.'] := by simp [← heq]
    exact absurd hmark (by decide)

/-- A text is steps outwards, each with its slash, and a rest that is the last step without its
slash or has no step in front. -/
theorem exists_steps (text : List Char) : ∃ steps body,
    text = (List.replicate steps ['.', '.', '/']).flatten ++ body ∧
      (body = ['.', '.'] ∨ takeSteps body = (0, body)) := by
  fun_induction takeSteps text with
  | case1 rest ih =>
    obtain ⟨steps, body, rfl, hbody⟩ := ih
    exact ⟨steps + 1, body, rfl, hbody⟩
  | case2 => exact ⟨0, ['.', '.'], rfl, .inl rfl⟩
  | case3 text hstep hbare => exact ⟨0, text, rfl, .inr (takeSteps.eq_3 text hstep hbare)⟩

/-! ### Texts that end with two points -/

/-- What is taken off for the current value is all of the text, or a word with its separator. -/
theorem dropThis_cases (text : List Char) :
    text = ['t', 'h', 'i', 's'] ∨ text = ['.'] ∨
      ∃ word ∈ [[], ['t', 'h', 'i', 's', '.'], ['t', 'h', 'i', 's', '/'], ['.', '/']],
        text = word ++ dropThis text := by
  unfold dropThis
  split
  · next hall =>
    rcases hall with hthis | hpoint
    · exact .inl hthis
    · exact .inr (.inl hpoint)
  · refine .inr (.inr ?_)
    cases hword : dropMark? ['t', 'h', 'i', 's', '.'] text with
    | some rest => exact ⟨_, by simp, dropMark?_eq_some.1 hword⟩
    | none =>
      cases hslash : dropMark? ['t', 'h', 'i', 's', '/'] text with
      | some rest => exact ⟨_, by simp, dropMark?_eq_some.1 hslash⟩
      | none =>
        cases hpoint : dropMark? ['.', '/'] text with
        | some rest => exact ⟨_, by simp, dropMark?_eq_some.1 hpoint⟩
        | none => exact ⟨[], by simp, rfl⟩

/-- The last segment is not empty, so no point stands at the end. -/
theorem not_suffix_of_readSegments (hsegments : readSegments text = .ok segments) :
    ¬ ['.'] <:+ text := by
  rintro ⟨front, rfl⟩
  obtain ⟨⟨⟩, hcheck, -⟩ := bind_eq_ok.1 hsegments
  have hpieces : [] ∈ splitOn (fun c => c = '.' || c = '/') (front ++ ['.']) := by
    rw [splitOn_eq_splitOnP, List.splitOnP_append_cons _ _ (by decide)]
    simp
  rw [if_neg (by simp)] at hcheck
  exact (checkSegments_eq_ok.1 hcheck [] hpieces).1 rfl

theorem not_points_of_readSegments (hsegments : readSegments (dropThis body) = .ok segments) :
    ¬ ['.', '.'] <:+ body := by
  intro hpoints
  rcases dropThis_cases body with rfl | rfl | ⟨word, hword, hbody⟩
  · exact absurd hpoints (by decide)
  · exact absurd hpoints (by decide)
  · cases hrest : dropThis body with
    | nil =>
      rw [hrest, List.append_nil] at hbody
      have hwords : ∀ word ∈ [[], ['t', 'h', 'i', 's', '.'], ['t', 'h', 'i', 's', '/'], ['.', '/']],
          ¬ ['.', '.'] <:+ word := by decide
      exact hwords word hword (hbody ▸ hpoints)
    | cons c rest =>
      refine not_suffix_of_readSegments hsegments ?_
      have hpoint : ['.'] <:+ body := ((List.suffix_cons '.' ['.']).trans hpoints)
      rw [hbody] at hpoint
      exact List.suffix_of_suffix_length_le hpoint (List.suffix_append _ _) (by simp [hrest])

theorem getLast?_steps (steps : Nat) :
    (List.replicate steps ['.', '.', '/']).flatten.getLast? ≠ some '.' := by
  cases steps with
  | zero => exact nofun
  | succ steps =>
    rw [List.replicate_succ', List.flatten_concat, List.getLast?_append]
    exact fun h => absurd (Option.some.inj h) (by decide)

/-- Behind steps outwards with their slashes as well, the segments do not end with two points. -/
theorem not_points_of_steps (steps : Nat) (hsegments : readSegments (dropThis body) = .ok segments) :
    ¬ ['.', '.'] <:+ (List.replicate steps ['.', '.', '/']).flatten ++ body := by
  rintro ⟨front, h⟩
  rcases List.append_eq_append_iff.1 h with ⟨between, hsteps, hpoints⟩ | ⟨between, -, hbody⟩
  · rcases List.eq_nil_or_concat between with rfl | ⟨init, c, rfl⟩
    · exact not_points_of_readSegments hsegments ⟨[], hpoints⟩
    · have hpoint : c = '.' := by
        have hmem : c ∈ ['.', '.'] := by simp [hpoints]
        simpa using hmem
      refine getLast?_steps steps ?_
      rw [hsteps, hpoint, List.concat_eq_append, ← List.append_assoc, List.getLast?_concat]
  · exact not_points_of_readSegments hsegments ⟨between, hbody.symm⟩

/-! ### The whole text -/

theorem takeSlice_eq_ok_none :
    takeSlice text = .ok (front, none) ↔ '[' ∉ text ∧ ']' ∉ text ∧ front = text := by
  constructor
  · intro h
    unfold takeSlice at h
    split at h
    · next hsplit =>
      have hopen := not_isInfix_of_splitAtMark?_eq_none hsplit
      rw [List.singleton_infix_iff] at hopen
      split at h
      · cases h
      · next hclose =>
        cases h
        exact ⟨hopen, hclose, rfl⟩
    · split at h
      · cases h
      · split at h
        · cases h
        · cases h
  · rintro ⟨hopen, hclose, rfl⟩
    exact takeSlice_of_not_mem hopen hclose

/-- Behind the parts of a path without a slice a slice is read, unless the text of the path ends
with two points. -/
theorem readParts_append_slice (hparts : readParts raw data rest = .ok p) (hslice : p.slice = none)
    (hinner : readSlice? inner = some s) (raw' : List Char) :
    readParts raw' data (rest ++ '[' :: inner ++ [']']) =
      if ['.', '.'] <:+ rest then .error .emptySegment
      else .ok { p with raw := String.ofList raw', slice := some s } := by
  obtain ⟨front, slice, segments, htaken, hsegments, hnamed, rfl⟩ := readParts_eq_ok.1 hparts
  obtain rfl : slice = none := hslice
  obtain ⟨hopen, -, rfl⟩ := takeSlice_eq_ok_none.1 htaken
  obtain ⟨steps, body, rfl, hbare | hbody⟩ := exists_steps rest
  -- The last step has no slash: with a slice behind it, it is a body of empty segments.
  · subst hbare
    have hsteps : takeSteps ((List.replicate steps ['.', '.', '/']).flatten ++ ['.', '.'] ++
        '[' :: inner ++ [']']) = (steps, ['.', '.'] ++ '[' :: inner ++ [']']) := by
      simp only [List.append_assoc, takeSteps_replicate]
      simp [takeSteps]
    have hempty : readSegments (dropThis ['.', '.']) = .error .emptySegment := rfl
    rw [if_pos (List.suffix_append _ _), readParts, hsteps, takeSlice_append (by decide) hinner]
    simp [bind, Except.bind, hempty]
  -- All steps have their slashes: with a slice they lead to the same body.
  · have htext : takeSteps ((List.replicate steps ['.', '.', '/']).flatten ++ body) =
        (steps, body) := by
      rw [takeSteps_replicate, hbody, Nat.zero_add]
    have hsteps : takeSteps ((List.replicate steps ['.', '.', '/']).flatten ++ body ++
        '[' :: inner ++ [']']) = (steps, body ++ '[' :: inner ++ [']']) := by
      rw [List.append_assoc, List.append_assoc, List.cons_append, takeSteps_replicate,
        takeSteps_append_of_eq_zero hbody, Nat.zero_add, List.append_assoc, List.cons_append]
    rw [htext] at hopen hsegments
    rw [if_neg (not_points_of_steps steps hsegments), readParts_eq_ok, htext, hsteps]
    exact ⟨body, some s, segments, takeSlice_append hopen hinner, hsegments, hnamed, rfl⟩

/-- The mark of data variables comes off first, whatever stands at the end. -/
theorem exists_readParts (hne : text ≠ []) : ∃ data rest,
    (['.', '.'] <:+ rest ↔ ['.', '.'] <:+ text) ∧
      ∀ more, read (text ++ more) = readParts (text ++ more) data (rest ++ more) := by
  by_cases hmark : text.head? = some '@'
  · obtain ⟨rest, rfl⟩ := List.head?_eq_some_iff.1 hmark
    refine ⟨true, rest, ?_, fun more => read_mark (rest ++ more)⟩
    rw [List.suffix_cons_iff]
    exact ⟨.inr, fun h => h.resolve_left (by simp)⟩
  · refine ⟨false, text, Iff.rfl, fun more => read_of_head? (by simp [hne]) ?_⟩
    rwa [List.head?_append_of_ne_nil _ hne]

theorem parse_eq_ok {line : Nat} : Path.parse line text = .ok p ↔ read (trim text) = .ok p := by
  unfold Path.parse
  cases read (trim text) with
  | ok path => simp
  | error fault => simp

theorem read_append_slice (hread : read text = .ok p) (hslice : p.slice = none)
    (hinner : readSlice? inner = some s) :
    read (text ++ '[' :: inner ++ [']']) =
      if ['.', '.'] <:+ text then .error .emptySegment
      else .ok { p with raw := String.ofList (text ++ '[' :: inner ++ [']']), slice := some s } := by
  have hne : text ≠ [] := by
    rintro rfl
    cases hread
  obtain ⟨data, rest, hpoints, hparts⟩ := exists_readParts hne
  have hbare : readParts text data rest = .ok p := by
    rw [← hread]
    simpa using (hparts []).symm
  have hsliced := readParts_append_slice hbare hslice hinner (text ++ '[' :: inner ++ [']'])
  rw [List.append_assoc rest, List.append_assoc text] at hsliced
  rw [List.append_assoc, hparts, hsliced]
  simp only [hpoints]

/-- No blanks come in with a slice. -/
theorem trim_append_slice (htrim : trim text = text) (hne : text ≠ []) (inner : List Char) :
    trim (text ++ '[' :: inner ++ [']']) = text ++ '[' :: inner ++ [']'] := by
  refine trim_eq_self ?_ ?_
  · rw [List.append_assoc, List.head?_append_of_ne_nil _ hne]
    exact not_isBlank_of_trim_eq htrim
  · rw [List.getLast?_concat]
    rintro c hc
    obtain rfl := Option.some.inj hc
    decide

/-- **A slice behind a path.** Where a text without blanks around it is read as a path that has no
slice, a slice can be put behind it, in any digits that write numbers of 64 bits: the result is the
same path with the slice. Only if the text ends with two points, which are a step outwards as long
as nothing follows them, there is an error about an empty segment. -/
theorem parse_append_slice {line : Nat} {text start len : List Char} {p : Path}
    (htrim : trim text = text) (hparse : Path.parse line text = .ok p) (hslice : p.slice = none)
    (hstart : Number.isDigits start = true) (hlen : Number.isDigits len = true)
    (hstart' : Number.ofDigits start < 2 ^ 64) (hlen' : Number.ofDigits len < 2 ^ 64) :
    let s : Slice := ⟨UInt64.ofNat (Number.ofDigits start), UInt64.ofNat (Number.ofDigits len)⟩
    let sliced := text ++ '[' :: (start ++ ':' :: len) ++ [']']
    Path.parse line sliced =
      if ['.', '.'] <:+ text then .error (.parse line (.path (String.ofList sliced) .emptySegment))
      else .ok { p with raw := String.ofList sliced, slice := some s } := by
  intro s sliced
  have hread : read text = .ok p := by rwa [parse_eq_ok, htrim] at hparse
  have hne : text ≠ [] := by
    rintro rfl
    cases hread
  have hinner := readSlice?_of_isDigits hstart hlen hstart' hlen'
  rw [Path.parse, trim_append_slice htrim hne, read_append_slice hread hslice hinner]
  by_cases hpoints : ['.', '.'] <:+ text
  · simp only [if_pos hpoints, sliced]
  · simp only [if_neg hpoints, s, sliced]

/-- The numbers have zeros in front of them, and the second one is the greatest. -/
theorem parse_append_slice_zeros :
    let text := "@../.././key".toList
    let start := "007".toList
    let len := "018446744073709551615".toList
    let p : Path := ⟨"@../.././key", true, 2, ["key"], none⟩
    let sliced := "@../.././key[007:018446744073709551615]"
    trim text = text ∧ Path.parse 4 text = .ok p ∧ p.slice = none ∧
      Number.isDigits start = true ∧ Number.isDigits len = true ∧
      Number.ofDigits start < 2 ^ 64 ∧ Number.ofDigits len < 2 ^ 64 ∧ ¬ ['.', '.'] <:+ text ∧
      Path.parse 4 sliced.toList =
        .ok ⟨sliced, true, 2, ["key"], some ⟨7, 18446744073709551615⟩⟩ := by
  intro text start len p sliced
  have htrim : trim text = text := by decide +kernel
  have hparse : Path.parse 4 text = .ok p := toOption_eq_some.1 (by decide +kernel)
  have hstart : Number.isDigits start = true := by decide +kernel
  have hlen : Number.isDigits len = true := by decide +kernel
  have hstart' : Number.ofDigits start < 2 ^ 64 := by decide +kernel
  have hlen' : Number.ofDigits len < 2 ^ 64 := by decide +kernel
  have hpoints : ¬ ['.', '.'] <:+ text := by decide +kernel
  have htext : text ++ '[' :: (start ++ ':' :: len) ++ [']'] = sliced.toList := by decide +kernel
  have hnumbers : (⟨UInt64.ofNat (Number.ofDigits start), UInt64.ofNat (Number.ofDigits len)⟩ :
      Slice) = ⟨7, 18446744073709551615⟩ := by decide +kernel
  have hsliced := parse_append_slice htrim hparse rfl hstart hlen hstart' hlen'
  simp only [if_neg hpoints, htext, hnumbers, String.ofList_toList] at hsliced
  exact ⟨htrim, hparse, rfl, hstart, hlen, hstart', hlen', hpoints, hsliced⟩

/-- Two points are a path, and with a slice behind them they are none. -/
theorem parse_points_slice :
    let text := "..".toList
    let sliced := text ++ '[' :: ("0".toList ++ ':' :: "1".toList) ++ [']']
    trim text = text ∧ Path.parse 1 text = .ok ⟨"..", false, 1, [], none⟩ ∧
      Number.isDigits "0".toList = true ∧ Number.isDigits "1".toList = true ∧
      ¬ ∃ p, Path.parse 1 sliced = .ok p := by
  intro text sliced
  refine ⟨by decide +kernel, toOption_eq_some.1 (by decide +kernel), by decide, by decide, ?_⟩
  rintro ⟨p, hp⟩
  have hnone : (Path.parse 1 sliced).toOption = none := by decide +kernel
  rw [toOption_eq_some.2 hp] at hnone
  cases hnone

end Path

end Stencil
