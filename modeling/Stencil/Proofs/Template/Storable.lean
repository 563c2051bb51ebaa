import Stencil.Proofs.Template.Pieces
import Stencil.Proofs.Template.RoundTrip
import Stencil.Proofs.Token.Bounds

/-!
# Trees of texts can be stored

The numbers in a tree are its lines, the steps of its paths and the ranges of its slices. A text has
no more lines than characters, and the steps of a path are written in it. So a text that a machine
can hold gives a tree that can be stored, as soon as JSON keeps its doubles.

## Main definitions

* `Template.floats` - the doubles that are written in a tree
* `Piece.IsStorable`, `Assembly.IsStorable` - pieces, and trees in the making, that can be stored

Main statement: `Template.isStorable_of_parse`.
-/

namespace Stencil

open Text

/-! ### Arguments -/

namespace Path

variable {text : List Char} {line : Nat} {p : Path}

theorem takeSteps_le (text : List Char) : (takeSteps text).1 ≤ text.length := by
  fun_induction takeSteps text with
  | case1 rest ih =>
    simp only [List.length_cons]
    omega
  | case2 => decide
  | case3 => exact Nat.zero_le _

theorem depth_le_of_read (h : read text = .ok p) : p.depth ≤ text.length := by
  unfold read at h
  by_cases hnil : text = []
  · rw [if_pos hnil] at h
    cases h
  · simp only [if_neg hnil, bind_eq_ok] at h
    obtain ⟨⟨front, slice⟩, -, segments, -, h⟩ := h
    split at h
    · next rest =>
      split at h
      · cases h
      · obtain rfl := Except.ok.inj h
        exact Nat.le_succ_of_le (takeSteps_le rest)
    · split at h
      · cases h
      · obtain rfl := Except.ok.inj h
        exact takeSteps_le text

theorem isStorable_of_parse (h : Path.parse line text = .ok p) (hlength : text.length < 2 ^ 64) :
    p.IsStorable := by
  have htrim := length_trim_le text
  unfold Path.parse at h
  split at h
  · next path hread =>
    obtain rfl := Except.ok.inj h
    have hdepth := depth_le_of_read hread
    show path.depth < 2 ^ 64
    omega
  · cases h

end Path

namespace Comparison

variable {text rest : List Char} {line : Nat} {operand : Operand} {op : Operator} {c : Comparison}

theorem isStorable_of_wordOperand (h : wordOperand line text = .ok operand)
    (hlength : text.length < 2 ^ 64) : operand.IsStorable := by
  unfold wordOperand at h
  split at h
  · obtain rfl := Except.ok.inj h
    trivial
  · split at h
    · obtain rfl := Except.ok.inj h
      trivial
    · split at h
      · obtain rfl := Except.ok.inj h
        trivial
      · obtain ⟨p, hp, rfl⟩ := map_eq_ok.1 h
        exact Path.isStorable_of_parse hp hlength

theorem isStorable_of_readOperand (h : readOperand line text = .ok (operand, rest))
    (hlength : text.length < 2 ^ 64) : operand.IsStorable ∧ rest.length ≤ text.length := by
  have htrim := length_trimStart_le text
  unfold readOperand at h
  split at h
  · cases h
  · next c body hc =>
    rw [hc] at htrim
    split at h
    · split at h
      · cases h
      · next front behind hsplit =>
        obtain ⟨rfl, rfl⟩ : .str (String.ofList front) = operand ∧ behind = rest := by simpa using h
        have hbody := congrArg List.length (eq_append_of_splitAtMark? hsplit)
        simp only [List.length_append, List.length_cons] at hbody htrim
        exact ⟨trivial, by omega⟩
    · dsimp only at h
      split at h
      · cases h
      · obtain ⟨operand', hword, h⟩ := bind_eq_ok.1 h
        have hfront := (List.takeWhile_prefix (fun c => !endsWord c) (l := c :: body)).length_le
        have hback := (List.dropWhile_suffix (fun c => !endsWord c) (l := c :: body)).length_le
        obtain ⟨rfl, rfl⟩ := Prod.mk.inj (Except.ok.inj h)
        exact ⟨isStorable_of_wordOperand hword (by omega), Nat.le_trans hback htrim⟩

theorem length_le_of_readOperator (h : readOperator line text = .ok (op, rest)) :
    rest.length ≤ text.length := by
  have htrim := length_trimStart_le text
  unfold readOperator at h
  dsimp only at h
  split at h
  · next found hfound =>
    obtain rfl := Except.ok.inj h
    obtain ⟨symbol, -, hsymbol⟩ := List.exists_of_findSome?_eq_some hfound
    obtain ⟨behind, hdrop, hbehind⟩ := Option.map_eq_some_iff.1 hsymbol
    obtain ⟨rfl, rfl⟩ := Prod.mk.inj hbehind
    have hlength := congrArg List.length (dropMark?_eq_some.1 hdrop)
    rw [List.length_append] at hlength
    omega
  · cases h

theorem isStorable_of_parse (h : Comparison.parse line text = .ok c)
    (hlength : text.length < 2 ^ 64) : c.IsStorable := by
  simp only [Comparison.parse, bind_eq_ok, Prod.exists] at h
  obtain ⟨left, behindLeft, hleft, op, behindOp, hop, right, behindRight, hright, h⟩ := h
  have hop' := length_le_of_readOperator hop
  obtain ⟨hleft', hbehind⟩ := isStorable_of_readOperand hleft hlength
  obtain ⟨hright', -⟩ := isStorable_of_readOperand hright (by omega)
  split at h
  · obtain rfl := Except.ok.inj h
    exact ⟨hleft', hright'⟩
  · cases h

end Comparison

theorem length_le_of_unbacktick? {text inner : List Char} (h : unbacktick? text = some inner) :
    inner.length ≤ text.length := by
  unfold unbacktick? at h
  split at h
  · split at h
    · exact Nat.le_succ_of_le (length_le_of_dropLastChar? h)
    · cases h
  · cases h

/-- The double that an argument writes, if it is one. -/
def Param.float? : Param → Option Float
  | .literal (.float x) => some x
  | _ => none

theorem Param.isStorable_of_parse {line : Nat} {text : List Char} {param : Param}
    (h : Param.parse line text = .ok param) (hlength : text.length < 2 ^ 64)
    (hfloat : ∀ x ∈ param.float?, Json.KeepsFloat x) : param.IsStorable := by
  unfold Param.parse at h
  split at h
  · next inner hinner =>
    obtain ⟨c, hc, rfl⟩ := map_eq_ok.1 h
    have hle := length_le_of_unbacktick? hinner
    exact Comparison.isStorable_of_parse hc (by omega)
  · split at h
    · obtain rfl := Except.ok.inj h
      trivial
    · split at h
      · next constant _ =>
        obtain rfl := Except.ok.inj h
        -- All other constants can be stored, whatever their values are.
        cases constant with
        | float x => exact hfloat x rfl
        | _ => trivial
      · obtain ⟨p, hp, rfl⟩ := map_eq_ok.1 h
        exact Path.isStorable_of_parse hp hlength

/-! ### Tags and pieces -/

variable {line bound : Nat} {tag : Tag}

/-- The arguments of a tag, those by position first. -/
def Call.arguments (call : Call) : List Param :=
  call.params ++ call.hash.map Prod.snd

theorem Call.isStorable_of_ofTag {call : Call} (h : Call.ofTag line tag = .ok call)
    (htag : tag.Fits bound) (hbound : bound < 2 ^ 64) (hline : line < 2 ^ 64)
    (hfloats : ∀ param ∈ call.arguments, ∀ x ∈ param.float?, Json.KeepsFloat x) :
    call.IsStorable := by
  simp only [Call.ofTag, bind_eq_ok] at h
  obtain ⟨path, hpath, params, hparams, hash, hhash, h⟩ := h
  obtain rfl := Except.ok.inj h
  have hlength {text : String} (h : text.length ≤ bound) : text.toList.length < 2 ^ 64 := by
    rw [String.length_toList]
    omega
  refine ⟨Path.isStorable_of_parse hpath (hlength htag.name), ?_, ?_, hline⟩
  · intro param hparam
    obtain ⟨arg, harg, hparse⟩ := exists_of_mem_mapM hparams hparam
    exact Param.isStorable_of_parse hparse (hlength (htag.args arg harg))
      (hfloats param (List.mem_append_left _ hparam))
  · intro entry hentry
    obtain ⟨⟨key, value⟩, hvalue, hparse⟩ := exists_of_mem_mapM hhash hentry
    obtain ⟨param, hparam, hpair⟩ := bind_eq_ok.1 hparse
    obtain rfl := Except.ok.inj hpair
    exact Param.isStorable_of_parse hparam (hlength (htag.hash _ hvalue))
      (hfloats param (List.mem_append_right _ (List.mem_map_of_mem hentry)))

namespace Piece

/-- The arguments of a piece. -/
def arguments : Piece → List Param
  | .output call _ => call.arguments
  | .opening call => call.arguments
  | .elseMark condition => condition.toList
  | .partialTag _ context _ => context.toList
  | _ => []

/-- The doubles that are written in a piece. -/
def floats (piece : Piece) : List Float :=
  piece.arguments.filterMap Param.float?

/-- What a piece brings into a tree can be stored. -/
def IsStorable : Piece → Prop
  | .output call _ => call.IsStorable
  | .opening call => call.IsStorable
  | .elseMark condition => ∀ param ∈ condition, param.IsStorable
  | .partialTag _ context line => (∀ param ∈ context, param.IsStorable) ∧ line < 2 ^ 64
  | _ => True

variable {piece : Piece}

theorem exists_arg_of_elseCondition {condition : Option Param}
    (h : elseCondition line tag = .ok condition) :
    ∀ param ∈ condition, ∃ arg ∈ tag.args, Param.parse line arg.toList = .ok param := by
  rintro param rfl
  obtain ⟨-, ⟨-, -, hnone⟩ | ⟨arg, param', hargs, hparse, hsome⟩⟩ := elseCondition_eq_ok.1 h
  · cases hnone
  · obtain rfl := Option.some.inj hsome
    refine ⟨arg, ?_, hparse⟩
    rcases hargs with ⟨-, hargs⟩ | ⟨-, hargs⟩
    · rw [hargs]
      exact .tail _ (.head _)
    · rw [hargs]
      exact .head _

theorem exists_arg_of_ofPartialTag (h : ofPartialTag line tag = .ok piece) :
    ∃ name context, piece = .partialTag name context line ∧
      ∀ param ∈ context, ∃ arg ∈ tag.args, Param.parse line arg.toList = .ok param := by
  obtain ⟨-, context, hcontext, rfl⟩ := ofPartialTag_eq_ok.1 h
  refine ⟨_, context, rfl, ?_⟩
  rintro param rfl
  rcases hcontext with ⟨-, hnone⟩ | ⟨arg, param', hargs, hparse, hsome⟩
  · cases hnone
  · obtain rfl := Option.some.inj hsome
    exact ⟨arg, hargs ▸ .head _, hparse⟩

theorem isStorable_of_ofToken? {token : Token} (h : ofToken? token = .ok (some piece))
    (htoken : token.kind.Fits bound) (hbound : bound < 2 ^ 64) (hline : token.line < 2 ^ 64)
    (hfloats : ∀ x ∈ piece.floats, Json.KeepsFloat x) : piece.IsStorable := by
  have hargument : ∀ param ∈ piece.arguments, ∀ x ∈ param.float?, Json.KeepsFloat x :=
    fun param hparam x hx => hfloats x (List.mem_filterMap.2 ⟨param, hparam, hx⟩)
  have hcontext {tag : Tag} (htag : tag.Fits bound) {context : Option Param}
      (hparse : ∀ param ∈ context, ∃ arg ∈ tag.args, Param.parse token.line arg.toList = .ok param)
      (hpiece : piece.arguments = context.toList) : ∀ param ∈ context, param.IsStorable := by
    intro param hparam
    obtain ⟨arg, harg, hparse⟩ := hparse param hparam
    have hlength := htag.args arg harg
    rw [← String.length_toList] at hlength
    refine Param.isStorable_of_parse hparse (by omega) (hargument param ?_)
    rw [hpiece]
    exact Option.mem_toList.2 hparam
  obtain ⟨kind, line⟩ := token
  cases ofToken_of_ofToken? h with
  | text body => trivial
  | raw body => trivial
  | closing name => trivial
  | opening hcall => exact Call.isStorable_of_ofTag hcall htoken hbound hline hargument
  | output _ hcall => exact Call.isStorable_of_ofTag hcall htoken hbound hline hargument
  | elseMark hcondition => exact hcontext htoken (exists_arg_of_elseCondition hcondition) rfl
  | partialTag hpartial =>
    obtain ⟨name, context, hpiece, hparse⟩ := exists_arg_of_ofPartialTag hpartial
    cases hpiece
    exact ⟨hcontext htoken hparse rfl, hline⟩

end Piece

/-! ### Trees in the making -/

/-- What an open block holds can be stored. -/
structure OpenBlock.IsStorable (block : OpenBlock) : Prop where
  call : block.call.IsStorable
  branches : BranchesStorable block.branches
  condition : ∀ param ∈ block.condition, param.IsStorable
  body : NodesStorable block.body

namespace Assembly

/-- What a tree in the making holds can be stored. -/
structure IsStorable (a : Assembly) : Prop where
  blocks : ∀ block ∈ a.blocks, block.IsStorable
  nodes : NodesStorable a.nodes

variable {a a' : Assembly}

theorem IsStorable.modifyBody (h : a.IsStorable) {f : List Node → List Node}
    (hf : ∀ nodes, NodesStorable nodes → NodesStorable (f nodes)) :
    (a.modifyBody f).IsStorable := by
  obtain ⟨blocks, nodes⟩ := a
  cases blocks with
  | nil => exact ⟨h.blocks, hf nodes h.nodes⟩
  | cons block blocks =>
    have hblock := h.blocks block (.head _)
    refine ⟨fun other hother => ?_, h.nodes⟩
    rcases List.mem_cons.1 hother with rfl | hother
    · exact { hblock with body := hf _ hblock.body }
    · exact h.blocks other (.tail _ hother)

theorem nodesStorable_concat {nodes : List Node} {node : Node} (hnodes : NodesStorable nodes)
    (hnode : node.IsStorable) : NodesStorable (nodes ++ [node]) := by
  rw [nodesStorable_iff] at hnodes ⊢
  intro other hother
  rcases List.mem_append.1 hother with hother | hother
  · exact hnodes other hother
  · obtain rfl := List.mem_singleton.1 hother
    exact hnode

theorem IsStorable.push (h : a.IsStorable) {node : Node} (hnode : node.IsStorable) :
    (a.push node).IsStorable :=
  h.modifyBody fun _ hnodes => nodesStorable_concat hnodes hnode

theorem nodesStorable_appendText (body : String) {nodes : List Node} (h : NodesStorable nodes) :
    NodesStorable (appendText body nodes) := by
  unfold appendText
  split
  · refine nodesStorable_concat ?_ trivial
    rw [nodesStorable_iff] at h ⊢
    exact fun node hnode => h node (List.dropLast_subset _ hnode)
  · exact nodesStorable_concat h trivial

theorem branchesStorable_concat {block : OpenBlock} (h : block.IsStorable) :
    BranchesStorable (block.branches ++ [⟨block.condition, block.body⟩]) := by
  have hbranches := h.branches
  rw [branchesStorable_iff] at hbranches ⊢
  intro branch hbranch
  rcases List.mem_append.1 hbranch with hbranch | hbranch
  · exact hbranches branch hbranch
  · obtain rfl := List.mem_singleton.1 hbranch
    exact ⟨h.condition, h.body⟩

theorem IsStorable.nextBranch (h : a.IsStorable) {line : Nat} {condition : Option Param}
    (hcondition : ∀ param ∈ condition, param.IsStorable)
    (hnext : a.nextBranch line condition = .ok a') : a'.IsStorable := by
  obtain ⟨block, blocks, hblocks, -, -, rfl⟩ := nextBranch_eq_ok.1 hnext
  have hall := h.blocks
  rw [hblocks, List.forall_mem_cons] at hall
  obtain ⟨hblock, hrest⟩ := hall
  refine ⟨List.forall_mem_cons.2 ⟨?_, hrest⟩, h.nodes⟩
  exact ⟨hblock.call, branchesStorable_concat hblock, hcondition, trivial⟩

theorem IsStorable.closeBlock (h : a.IsStorable) {line : Nat} {name : String}
    (hclose : a.closeBlock line name = .ok a') : a'.IsStorable := by
  obtain ⟨block, blocks, hblocks, -, rfl⟩ := closeBlock_eq_ok.1 hclose
  have hall := h.blocks
  rw [hblocks, List.forall_mem_cons] at hall
  obtain ⟨hblock, hrest⟩ := hall
  have hbelow : IsStorable { a with blocks := blocks } := ⟨hrest, h.nodes⟩
  exact hbelow.push ⟨hblock.call, branchesStorable_concat hblock⟩

theorem IsStorable.place (h : a.IsStorable) {line position : Nat} {paired : Bool} {piece : Piece}
    (hpiece : piece.IsStorable) (hplace : a.place line position paired piece = .ok a') :
    a'.IsStorable := by
  cases piece with
  | text body =>
    obtain rfl := Except.ok.inj hplace
    exact h.modifyBody fun _ => nodesStorable_appendText body
  | raw body =>
    obtain rfl := Except.ok.inj hplace
    exact h.push trivial
  | output call escaped =>
    obtain rfl := Except.ok.inj hplace
    exact h.push hpiece
  | partialTag name context line =>
    obtain rfl := Except.ok.inj hplace
    exact h.push hpiece
  | opening call =>
    rcases place_opening_eq_ok.1 hplace with ⟨-, rfl⟩ | ⟨-, -, rfl⟩
    · refine ⟨List.forall_mem_cons.2 ⟨?_, h.blocks⟩, h.nodes⟩
      exact ⟨hpiece, trivial, fun _ h => (nomatch h), trivial⟩
    · exact h.push hpiece
  | elseMark condition => exact h.nextBranch hpiece hplace
  | closing name => exact h.closeBlock hplace

end Assembly

/-! ### Trees of texts -/

namespace Piece

theorem mem_joinTexts {piece : Piece} {row : List Piece} (h : piece ∈ row)
    (htext : piece.isText = false) : piece ∈ joinTexts row := by
  induction row with
  | nil => cases h
  | cons first row ih =>
    rcases List.mem_cons.1 h with rfl | h
    · rw [joinTexts_cons_of_not_isText htext]
      exact .head _
    · -- A text in front can only take away a text.
      have hrest := ih h
      cases first with
      | text a =>
        simp only [joinTexts]
        split
        · next b rest hjoin =>
          rw [hjoin] at hrest
          rcases List.mem_cons.1 hrest with rfl | hrest
          · cases htext
          · exact .tail _ hrest
        · exact .tail _ hrest
      | _ => exact .tail _ hrest

theorem mem_of_ofTokens? {tokens : List Token} {row : List Piece} (h : ofTokens? tokens = .ok row)
    {token : Token} (htoken : token ∈ tokens) {piece : Piece}
    (hpiece : ofToken? token = .ok (some piece)) : piece ∈ row := by
  induction tokens generalizing row with
  | nil => cases htoken
  | cons first tokens ih =>
    rw [ofTokens?_cons] at h
    obtain ⟨piece?, hfirst, h⟩ := bind_eq_ok.1 h
    obtain ⟨later, hlater, h⟩ := bind_eq_ok.1 h
    obtain rfl := Except.ok.inj h
    rcases List.mem_cons.1 htoken with rfl | htoken
    · obtain rfl := Except.ok.inj (hfirst.symm.trans hpiece)
      exact .head _
    · exact List.mem_append_right _ (ih hlater htoken)

end Piece

namespace Template

/-- The doubles that are written in a tree. -/
def floats (t : Template) : List Float :=
  (nodesPieces t.nodes).flatMap Piece.floats

/-- JSON keeps the doubles that are written in a tree. -/
def KeepsFloats (t : Template) : Prop :=
  ∀ x ∈ t.floats, Json.KeepsFloat x

instance (t : Template) : Decidable t.KeepsFloats :=
  inferInstanceAs (Decidable (∀ x ∈ t.floats, Json.KeepsFloat x))

theorem mem_floats_of_ofTokens {tokens : List Token} {t : Template}
    (h : ofTokens tokens = .ok t) {token : Token} (htoken : token ∈ tokens) {piece : Piece}
    (hpiece : Piece.ofToken? token = .ok (some piece)) : piece.floats ⊆ t.floats := by
  obtain ⟨row, hrow, hpieces⟩ := Assembly.pieces_foldlM (foldlM_of_ofTokens h)
  rw [List.zipIdx_map_fst] at hrow
  have hmem := Piece.mem_of_ofTokens? hrow htoken hpiece
  have hnodes : nodesPieces t.nodes = Piece.joinTexts row := by
    rw [Piece.joinTexts_eq_foldl]
    simpa [Assembly.pieces, Assembly.empty, nodesPieces] using hpieces
  intro x hx
  refine List.mem_flatMap.2 ⟨piece, ?_, hx⟩
  rw [hnodes]
  refine Piece.mem_joinTexts hmem ?_
  cases piece with
  | text body => cases hx
  | _ => rfl

/-- A text of the length that a machine can hold gives a tree that can be stored, if JSON keeps its
doubles. -/
theorem isStorable_of_parse {source : String} {t : Template} (h : parse source = .ok t)
    (hlength : source.length < 2 ^ 63) (hfloats : t.KeepsFloats) : t.IsStorable := by
  obtain ⟨tokens, hscan, htree⟩ := bind_eq_ok.1 h
  rw [← String.length_toList] at hlength
  have hpieces : ∀ token ∈ tokens, ∀ piece, Piece.ofToken? token = .ok (some piece) →
      piece.IsStorable := by
    intro token htoken piece hpiece
    have hline := Token.line_le_of_scanFrom hscan htoken
    exact Piece.isStorable_of_ofToken? hpiece (Token.fits_of_scanFrom _ _ tokens hscan _ htoken)
      (by omega) (by omega) fun x hx => hfloats x (mem_floats_of_ofTokens htree htoken hpiece hx)
  have hempty : Assembly.empty.IsStorable := ⟨fun _ h => (nomatch h), trivial⟩
  exact (invariant_ofTokens hempty (fun h hpiece => h.place hpiece) hpieces htree).nodes

end Template

end Stencil
