import Stencil.Proofs.Template.Storable

/-!
# The partials of a text

The names of the partials in a tree stand in the tags of its text. As they are parts of the text,
none of them is as long as the text itself.

## Main definitions

* `Piece.partialName?` - the name of the partial that a tag renders

Main statement: `Template.length_lt_of_mem_partialNames`.
-/

namespace Stencil

/-- The name of the partial that a piece renders, if it does. -/
def Piece.partialName? : Piece → Option String
  | .partialTag name _ _ => some name
  | _ => none

/-! ### Names and pieces -/

mutual

theorem Node.partialNames_eq (n : Node) :
    n.partialNames = n.pieces.filterMap Piece.partialName? := by
  cases n with
  | block call branches =>
    rw [Node.partialNames, Node.pieces, branchesPartialNames_eq true]
    simp [List.filterMap_cons, Piece.partialName?]
  | _ => rfl

theorem nodesPartialNames_eq (body : List Node) :
    nodesPartialNames body = (nodesPieces body).filterMap Piece.partialName? := by
  cases body with
  | nil => rfl
  | cons n body =>
    rw [nodesPartialNames, nodesPieces, List.filterMap_append, n.partialNames_eq,
      nodesPartialNames_eq body]

theorem branchesPartialNames_eq (isFirst : Bool) (branches : List (Branch Node)) :
    branchesPartialNames branches =
      (branchesPieces isFirst branches).filterMap Piece.partialName? := by
  cases branches with
  | nil => rfl
  | cons branch branches =>
    obtain ⟨condition, body⟩ := branch
    rw [branchesPartialNames, branchesPieces, nodesPartialNames_eq body,
      branchesPartialNames_eq false branches]
    cases isFirst <;> simp [List.filterMap_cons, Piece.partialName?]

end

theorem Piece.mem_of_mem_snoc {row : List Piece} {piece other : Piece} (h : other ∈ snoc row piece)
    (htext : other.isText = false) : other ∈ row ∨ other = piece := by
  fun_induction snoc row piece with
  | case1 piece => exact .inr (List.mem_singleton.1 h)
  | case2 a b =>
    obtain rfl := List.mem_singleton.1 h
    cases htext
  | case3 first row piece _ ih =>
    rcases List.mem_cons.1 h with rfl | h
    · exact .inl (.head _)
    · exact (ih h).imp_left (.tail _)

namespace Template

variable {tokens : List Token} {t : Template}

/-- A tag in a tree comes from a token. -/
theorem exists_token_of_mem_pieces (h : ofTokens tokens = .ok t) {piece : Piece}
    (hpiece : piece ∈ nodesPieces t.nodes) (htext : piece.isText = false) :
    ∃ token ∈ tokens, Piece.ofToken? token = .ok (some piece) := by
  let FromToken (piece : Piece) : Prop :=
    ∃ token ∈ tokens, Piece.ofToken? token = .ok (some piece)
  let Traced (a : Assembly) : Prop :=
    ∀ piece ∈ a.pieces, piece.isText = false → FromToken piece
  have hplace {a a' : Assembly} {line position : Nat} {paired : Bool} {piece : Piece}
      (ha : Traced a) (hpiece : FromToken piece) (h : a.place line position paired piece = .ok a') :
      Traced a' := by
    intro other hother htext
    rw [Assembly.pieces_place h] at hother
    rcases Piece.mem_of_mem_snoc hother htext with hother | rfl
    · exact ha other hother htext
    · exact hpiece
  have hwhole : Traced ⟨[], t.nodes⟩ :=
    invariant_ofTokens (fun _ h => nomatch h) hplace
      (fun token htoken piece hpiece => ⟨token, htoken, hpiece⟩) h
  refine hwhole piece ?_ htext
  simpa [Assembly.pieces] using hpiece

end Template

/-! ### Lengths -/

theorem length_le_of_unquote? {text inner : List Char} (h : unquote? text = some inner) :
    inner.length ≤ text.length := by
  unfold unquote? at h
  split at h
  · split at h
    · exact Nat.le_succ_of_le (Text.length_le_of_dropLastChar? h)
    · cases h
  · cases h

namespace Piece

variable {token : Token} {line : Nat} {tag : Tag} {piece : Piece} {name : String}

/-- Partials come from tags of their own kind. -/
theorem exists_tag_of_ofToken? (h : ofToken? token = .ok (some piece))
    (hname : piece.partialName? = some name) :
    ∃ tag, token.kind = .partialTag tag ∧ ofPartialTag token.line tag = .ok piece := by
  obtain ⟨kind, line⟩ := token
  cases ofToken_of_ofToken? h with
  | partialTag hpartial => exact ⟨_, rfl, hpartial⟩
  | _ => cases hname

/-- The name of a partial is no longer than the first word of its tag. -/
theorem length_le_of_ofPartialTag (h : ofPartialTag line tag = .ok piece)
    (hname : piece.partialName? = some name) : name.length ≤ tag.name.length := by
  obtain ⟨-, context, -, rfl⟩ := ofPartialTag_eq_ok.1 h
  obtain rfl := Option.some.inj hname
  rw [String.length_ofList, ← String.length_toList]
  cases hquoted : unquote? tag.name.toList with
  | none => exact Nat.le_refl _
  | some inner => exact length_le_of_unquote? hquoted

end Piece

/-- The names of the partials in a text are shorter than the text. -/
theorem Template.length_lt_of_mem_partialNames {source : String} {t : Template}
    (h : parse source = .ok t) {name : String} (hname : name ∈ t.partialNames) :
    name.length < source.length := by
  obtain ⟨tokens, hscan, htree⟩ := bind_eq_ok.1 h
  rw [partialNames, nodesPartialNames_eq] at hname
  obtain ⟨piece, hpiece, hname⟩ := List.mem_filterMap.1 hname
  have htext : piece.isText = false := by
    cases piece <;> first | rfl | cases hname
  obtain ⟨token, htoken, hmeaning⟩ := exists_token_of_mem_pieces htree hpiece htext
  obtain ⟨tag, hkind, hpartial⟩ := Piece.exists_tag_of_ofToken? hmeaning hname
  have hfits := Token.fits_of_scanFrom _ _ tokens hscan token htoken
  rw [hkind] at hfits
  have hword : tag.name.length ≤ source.toList.length - 2 := hfits.name
  have hlength := Piece.length_le_of_ofPartialTag hpartial hname
  -- Without characters there are no tokens at all.
  have hsource : source.toList ≠ [] := by
    intro hnil
    have hempty : Token.scanFrom 1 [] = .ok [] := Token.scans_iff.2 (.text rfl)
    rw [Token.scan, hnil, hempty] at hscan
    obtain rfl := Except.ok.inj hscan
    cases htoken
  have hpos := List.length_pos_iff.2 hsource
  rw [String.length_toList] at hword hpos
  omega

end Stencil
