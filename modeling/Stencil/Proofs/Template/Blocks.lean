import Mathlib.Data.List.Forall2
import Stencil.Proofs.Template.Nesting

/-!
# Blocks are put together from their branches

A row of tokens that has a tree of its own has the same nodes as the body of a branch. The tree of
a block is therefore known from the trees of its bodies: opening tag, bodies with `else` tags
between them, and closing tag make one block with these bodies as its branches.

## Main definitions

* `Assembly.inside` - a tree in the making, as the content of an open block
* `Token.IsBody` - a row of tokens that can be a body of a block
* `Token.IsElse` - an `else` tag with its condition
* `Token.blockTail` - the tokens of a block behind its main body
-/

namespace Stencil

namespace Assembly

variable {opens opens' : List Nat} {a a' : Assembly} (k : Nat) (block : OpenBlock)
  (blocks : List OpenBlock) (nodes : List Node)

/-- A tree in the making as the content of the branch that `block` is filling, with `blocks` and
`nodes` around it. Its opening tags stand `k` tokens further back in the row. -/
def inside (a : Assembly) : Assembly :=
  ⟨a.blocks.map (fun inner => { inner with start := inner.start + k }) ++
      { block with body := a.nodes } :: blocks, nodes⟩

theorem inside_modifyBody (a : Assembly) (f : List Node → List Node) :
    (a.modifyBody f).inside k block blocks nodes =
      (a.inside k block blocks nodes).modifyBody f := by
  obtain ⟨inner, own⟩ := a
  cases inner <;> rfl

theorem inside_push (a : Assembly) (node : Node) :
    (a.push node).inside k block blocks nodes = (a.inside k block blocks nodes).push node :=
  inside_modifyBody k block blocks nodes a _

theorem blocks_inside (a : Assembly) {first : OpenBlock} {inner : List OpenBlock}
    (h : a.blocks = first :: inner) :
    (a.inside k block blocks nodes).blocks =
      { first with start := first.start + k } ::
        (inside k block blocks nodes { a with blocks := inner }).blocks := by
  simp only [inside, h, List.map_cons, List.cons_append]

/-- What a piece does is the same inside of a block: only the blocks of the part itself are
touched, since otherwise there would have been an error without the block around it. -/
theorem place_inside {line position : Nat} {paired : Bool} {piece : Piece}
    (h : a.place line position paired piece = .ok a') :
    (a.inside k block blocks nodes).place line (position + k) paired piece =
      .ok (a'.inside k block blocks nodes) := by
  cases piece with
  | text body =>
    obtain rfl : a.modifyBody (appendText body) = a' := by simpa [place] using h
    rw [inside_modifyBody, place]
  | raw body =>
    obtain rfl : a.push (.raw body) = a' := by simpa [place] using h
    rw [inside_push, place]
  | output call escaped =>
    obtain rfl : a.push (.output call escaped) = a' := by simpa [place] using h
    rw [inside_push, place]
  | partialTag name context line =>
    obtain rfl : a.push (.partialTag name context line) = a' := by simpa [place] using h
    rw [inside_push, place]
  | opening call =>
    rcases place_opening_eq_ok.1 h with ⟨hpaired, rfl⟩ | ⟨hpaired, hhelper, rfl⟩
    · exact place_opening_eq_ok.2 (.inl ⟨hpaired, rfl⟩)
    · rw [inside_push]
      exact place_opening_eq_ok.2 (.inr ⟨hpaired, hhelper, rfl⟩)
  | elseMark condition =>
    obtain ⟨first, inner, hblocks, hafter, hcondition, rfl⟩ := nextBranch_eq_ok.1 h
    have hinside := a.blocks_inside k block blocks nodes hblocks
    exact nextBranch_eq_ok.2 ⟨_, _, hinside, hafter, hcondition, rfl⟩
  | closing name =>
    obtain ⟨first, inner, hblocks, hname, rfl⟩ := closeBlock_eq_ok.1 h
    rw [inside_push]
    have hinside := a.blocks_inside k block blocks nodes hblocks
    exact closeBlock_eq_ok.2 ⟨_, _, hinside, hname, rfl⟩

theorem step_inside {token : Token} {i : Nat} (h : step opens a (token, i) = .ok a')
    (hopens : i + k ∈ opens' ↔ i ∈ opens) :
    step opens' (a.inside k block blocks nodes) (token, i + k) =
      .ok (a'.inside k block blocks nodes) := by
  rw [step, bind_eq_ok] at h ⊢
  obtain ⟨piece?, hpiece, h⟩ := h
  refine ⟨piece?, hpiece, ?_⟩
  cases piece? with
  | none =>
    obtain rfl : a = a' := by simpa [pure, Except.pure] using h
    rfl
  | some piece =>
    have hpaired : decide (i + k ∈ opens') = decide (i ∈ opens) := decide_eq_decide.2 hopens
    simpa only [hpaired] using place_inside k block blocks nodes h

theorem foldlM_inside {entries : List (Token × Nat)} (h : entries.foldlM (step opens) a = .ok a')
    (hopens : ∀ entry ∈ entries, (entry.2 + k ∈ opens' ↔ entry.2 ∈ opens)) :
    (entries.map (Prod.map id (· + k))).foldlM (step opens') (a.inside k block blocks nodes) =
      .ok (a'.inside k block blocks nodes) := by
  induction entries generalizing a with
  | nil =>
    obtain rfl : a = a' := by simpa [pure, Except.pure] using h
    rfl
  | cons entry entries ih =>
    rw [List.foldlM_cons, bind_eq_ok] at h
    obtain ⟨mid, hstep, h⟩ := h
    rw [List.map_cons, List.foldlM_cons, bind_eq_ok]
    exact ⟨_, step_inside k block blocks nodes hstep (hopens entry (by simp)),
      ih h fun entry' hentry' => hopens entry' (by simp [hentry'])⟩

/-- A row that has a tree fills a branch with the nodes of the tree. -/
theorem foldlM_body {tokens : List Token} {body : List Node}
    (h : Template.ofTokens tokens = .ok ⟨body⟩) (hblock : block.body = [])
    (hopens : ∀ i < tokens.length, (i + k ∈ opens ↔ i ∈ Token.pairedOpens tokens)) :
    (tokens.zipIdx k).foldlM (step opens) ⟨block :: blocks, nodes⟩ =
      .ok ⟨{ block with body := body } :: blocks, nodes⟩ := by
  have hinside := foldlM_inside k block blocks nodes (Template.foldlM_of_ofTokens h)
    fun entry hentry => hopens entry.2 (List.snd_lt_of_mem_zipIdx hentry)
  rw [List.map_snd_add_zipIdx_eq_zipIdx, Nat.add_zero] at hinside
  simpa [inside, empty, ← hblock] using hinside

end Assembly

namespace Token

/-- A row of tokens that can be a body of a block of the given name: it has a tree of its own, and
its opening tags of that name have their closing tags in it. -/
structure IsBody (name : String) (tokens : List Token) (nodes : List Node) : Prop where
  tree : Template.ofTokens tokens = .ok ⟨nodes⟩
  paired : ∀ entry ∈ tokens.zipIdx, entry.1.isOpening name → entry.2 ∈ pairedOpens tokens

/-- An `else` or `elseif` tag with its condition. -/
def IsElse (token : Token) (condition : Option Param) : Prop :=
  ∃ tag escaped, token.kind = .output tag escaped ∧ (tag.name = "else" ∨ tag.name = "elseif") ∧
    Piece.elseCondition token.line tag = .ok condition

/-- The tokens of a block behind its main body: `else` tags, each with its body, and the closing
tag. -/
def blockTail (written : List (Token × List Token)) (close : Token) : List Token :=
  written.flatMap (fun branch => branch.1 :: branch.2) ++ [close]

variable {name : String} {written : List (Token × List Token)} {close : Token}

theorem IsBody.pairsName {tokens : List Token} {nodes : List Node}
    (h : IsBody name tokens nodes) : PairsName name tokens :=
  Template.pairsName_of_ofTokens h.tree h.paired

theorem IsElse.ofToken? {token : Token} {condition : Option Param} (h : IsElse token condition) :
    Piece.ofToken? token = .ok (some (.elseMark condition)) := by
  obtain ⟨tag, escaped, hkind, hname, hcondition⟩ := h
  simp only [Piece.ofToken?, hkind, if_pos hname, hcondition]
  rfl

/-- An `else` tag has no part in the pairs. -/
theorem IsElse.pairsFrom_cons {token : Token} {condition : Option Param}
    (h : IsElse token condition) (pending : List (String × Nat)) (i : Nat)
    (entries : List (Token × Nat)) :
    pairsFrom pending ((token, i) :: entries) = pairsFrom pending entries := by
  obtain ⟨tag, escaped, hkind, -⟩ := h
  simp [pairsFrom, hkind]

theorem blockTail_cons (branch : Token × List Token) (written : List (Token × List Token))
    (close : Token) :
    blockTail (branch :: written) close = branch.1 :: (branch.2 ++ blockTail written close) := by
  simp [blockTail]

/-- Behind the main body of a block only opening tags that follow, and the one of the block itself,
find their closing tags: the branches before left no opening tag of its name pending. -/
theorem pairsFrom_blockTail
    (hwritten : ∀ branch ∈ written, (∃ condition, IsElse branch.1 condition) ∧
      PairsName name branch.2)
    (hclose : close.kind = .closing name) {pending : List (String × Nat)}
    (hpending : ∀ e ∈ pending, e.1 ≠ name) (start k : Nat) :
    let opens := (pairsFrom (pending ++ [(name, start)]) ((blockTail written close).zipIdx k)).map
      Prod.fst
    start ∈ opens ∧ ∀ i ∈ opens, i = start ∨ k ≤ i := by
  induction written generalizing pending k with
  | nil =>
    have htake : takePending name (pending ++ [(name, start)]) = some (start, pending) :=
      takePending_eq_some_iff.2 ⟨pending, [], rfl, hpending, by simp⟩
    simp [blockTail, pairsFrom, hclose, htake]
  | cons branch written ih =>
    obtain ⟨⟨condition, helse⟩, hpairs⟩ := hwritten branch (by simp)
    obtain ⟨left, hleft, happend⟩ := hpairs.pairsFrom_append (k + 1) (pending ++ [(name, start)])
      ((blockTail written close).zipIdx (k + 1 + branch.2.length))
    have hboth : ∀ e ∈ left ++ pending, e.1 ≠ name := fun e he =>
      (List.mem_append.1 he).elim (hleft e) (hpending e)
    obtain ⟨hstart, hlater⟩ := ih (fun branch' hbranch' => hwritten branch' (by simp [hbranch']))
      hboth (k + 1 + branch.2.length)
    rw [List.append_assoc] at hstart hlater
    rw [blockTail_cons, List.zipIdx_cons, helse.pairsFrom_cons, List.zipIdx_append, happend,
      List.map_append]
    refine ⟨List.mem_append_right _ hstart, fun i hi => ?_⟩
    rcases List.mem_append.1 hi with hi | hi
    · obtain ⟨pair, hpair, rfl⟩ := List.mem_map.1 hi
      obtain ⟨pair', -, rfl⟩ := List.mem_map.1 hpair
      exact .inr (by simp only [Prod.map_fst]; omega)
    · exact (hlater i hi).imp_right fun h => by omega

theorem isElse_and_pairsName {branches : List (Branch Node)}
    (h : List.Forall₂ (fun w branch => IsElse w.1 branch.condition ∧ IsBody name w.2 branch.body)
      written branches) :
    ∀ branch ∈ written, (∃ condition, IsElse branch.1 condition) ∧ PairsName name branch.2 := by
  induction h with
  | nil => simp
  | cons hfirst _ ih =>
    intro branch hbranch
    rcases List.mem_cons.1 hbranch with rfl | hbranch
    · exact ⟨⟨_, hfirst.1⟩, hfirst.2.pairsName⟩
    · exact ih branch hbranch

/-- In a block the pairs of a body are those that it has by itself, and behind the body the pairs
are those of the rest of the block. -/
theorem mem_opens_of_body {body : List Token} (hbody : PairsName name body)
    (hwritten : ∀ branch ∈ written, (∃ condition, IsElse branch.1 condition) ∧
      PairsName name branch.2)
    (hclose : close.kind = .closing name) {pending : List (String × Nat)}
    (hpending : ∀ e ∈ pending, e.1 ≠ name) {start k : Nat} (hstart : start < k) {opens : List Nat}
    (hopens : ∀ i, k ≤ i → (i ∈ opens ↔ i ∈ (pairsFrom (pending ++ [(name, start)])
      ((body ++ blockTail written close).zipIdx k)).map Prod.fst)) :
    (∀ i < body.length, (i + k ∈ opens ↔ i ∈ pairedOpens body)) ∧
      ∃ pending' : List (String × Nat), (∀ e ∈ pending', e.1 ≠ name) ∧
        ∀ i, k + body.length ≤ i → (i ∈ opens ↔ i ∈ (pairsFrom (pending' ++ [(name, start)])
          ((blockTail written close).zipIdx (k + body.length))).map Prod.fst) := by
  obtain ⟨left, hleft, happend⟩ := hbody.pairsFrom_append k (pending ++ [(name, start)])
    ((blockTail written close).zipIdx (k + body.length))
  have hboth : ∀ e ∈ left ++ pending, e.1 ≠ name := fun e he =>
    (List.mem_append.1 he).elim (hleft e) (hpending e)
  -- The pairs of the rest have their opening tags in the rest or are the pair of the block itself,
  -- so positions tell the two kinds of pairs apart.
  have hlater := (pairsFrom_blockTail hwritten hclose hboth start (k + body.length)).2
  rw [List.zipIdx_append, happend, ← List.append_assoc left] at hopens
  simp only [List.map_append, List.mem_append, List.map_map] at hopens
  constructor
  · intro i hi
    rw [hopens (i + k) (by omega)]
    constructor
    · rintro (hmem | hmem)
      · obtain ⟨pair, hpair, heq⟩ := List.mem_map.1 hmem
        have heq : pair.1 + k = i + k := heq
        exact List.mem_map.2 ⟨pair, hpair, by omega⟩
      · have := hlater _ hmem
        omega
    · intro hmem
      obtain ⟨pair, hpair, rfl⟩ := List.mem_map.1 hmem
      exact .inl (List.mem_map.2 ⟨pair, hpair, rfl⟩)
  · refine ⟨left ++ pending, hboth, fun i hi => ?_⟩
    rw [hopens i (by omega), or_iff_right]
    intro hmem
    obtain ⟨pair, hpair, heq⟩ := List.mem_map.1 hmem
    have heq : pair.1 + k = i := heq
    have := lt_length_of_mem_pairedOpens (List.mem_map_of_mem hpair)
    omega

end Token

/-- A block that has completed a branch and starts another one. -/
def OpenBlock.next (block : OpenBlock) (condition : Option Param) : OpenBlock :=
  { block with
    branches := block.branches ++ [⟨block.condition, block.body⟩]
    condition := condition
    body := []
    afterElse := condition.isNone }

open Token in
/-- An `else` tag starts the next branch, unless an `else` without a condition came before it or
it has a condition and the block is not named `if`. -/
theorem Assembly.step_isElse (opens : List Nat) (i : Nat) {token : Token}
    {condition : Option Param} (h : IsElse token condition) {block : OpenBlock}
    (hafter : block.afterElse = false) (hif : condition.isSome → block.call.name = "if") :
    step opens ⟨[block], []⟩ (token, i) = .ok ⟨[block.next condition], []⟩ := by
  have hallowed : ¬ (condition.isSome = true ∧ block.call.name ≠ "if") := by
    rintro ⟨hsome, hne⟩
    exact hne (hif hsome)
  rw [step, h.ofToken?]
  exact (if_neg (by simp [hafter])).trans (if_neg hallowed)

open Token in
/-- The body of a branch and all that follows it in a block, with the block on the stack. -/
theorem Assembly.foldlM_branches {opens : List Nat} {name : String} {close : Token}
    (hclose : close.kind = .closing name) {written : List (Token × List Token)}
    {branches : List (Branch Node)}
    (hwritten : List.Forall₂
      (fun w branch => IsElse w.1 branch.condition ∧ IsBody name w.2 branch.body) written branches)
    (hif : ∀ branch ∈ branches, branch.condition.isSome → name = "if")
    (hlast : ∀ branch ∈ branches.dropLast, branch.condition.isSome)
    {body : List Token} {nodes : List Node} (hbody : IsBody name body nodes)
    {block : OpenBlock} (hname : block.call.name = name) (hempty : block.body = [])
    (helse : block.afterElse = true → branches = [])
    {pending : List (String × Nat)} (hpending : ∀ e ∈ pending, e.1 ≠ name) {start k : Nat}
    (hstart : start < k)
    (hopens : ∀ i, k ≤ i → (i ∈ opens ↔ i ∈ (pairsFrom (pending ++ [(name, start)])
      ((body ++ blockTail written close).zipIdx k)).map Prod.fst)) :
    ((body ++ blockTail written close).zipIdx k).foldlM (step opens) ⟨[block], []⟩ =
      .ok ⟨[], [.block block.call
        (block.branches ++ ⟨block.condition, nodes⟩ :: branches)]⟩ := by
  induction hwritten generalizing body nodes block pending k with
  | nil =>
    obtain ⟨hown, -⟩ := mem_opens_of_body hbody.pairsName (by simp) hclose hpending hstart hopens
    have hrun := foldlM_body k block [] [] hbody.tree hempty hown
    rw [List.zipIdx_append, List.foldlM_append, hrun]
    have hpiece : Piece.ofToken? close = .ok (some (.closing name)) := by
      rw [Piece.ofToken?, hclose]
    simp [blockTail, step, hpiece, place, closeBlock, hname, push, modifyBody, bind, Except.bind,
      pure, Except.pure]
  | @cons w branch written branches hfirst hrest ih =>
    obtain ⟨hcondition, hnext⟩ := hfirst
    have hpairs := isElse_and_pairsName (.cons ⟨hcondition, hnext⟩ hrest)
    obtain ⟨hown, pending', hpending', htail⟩ :=
      mem_opens_of_body hbody.pairsName hpairs hclose hpending hstart hopens
    have hrun := foldlM_body k block [] [] hbody.tree hempty hown
    have hafter : block.afterElse = false := by
      by_contra h
      simpa using helse (by simpa using h)
    -- The main body fills the block, the `else` tag starts the next branch, and what follows is the
    -- same situation again with one branch less.
    let filled : OpenBlock := { block with body := nodes }
    let next : OpenBlock := filled.next branch.condition
    have hstep : step opens ⟨[filled], []⟩ (w.1, k + body.length) = .ok ⟨[next], []⟩ :=
      step_isElse opens _ hcondition hafter fun hsome => hname.trans (hif branch (by simp) hsome)
    have hnextElse : next.afterElse = true → branches = [] := by
      intro hnone
      by_contra hne
      have hsome := hlast branch (by simp [List.dropLast_cons_of_ne_nil hne])
      simp [Option.isNone_iff_eq_none.1 hnone] at hsome
    have hnextLast : ∀ b ∈ branches.dropLast, b.condition.isSome := by
      intro b hb
      have hne : branches ≠ [] := by
        rintro rfl
        simp at hb
      exact hlast b (by simp [List.dropLast_cons_of_ne_nil hne, hb])
    have hnextOpens : ∀ i, k + body.length + 1 ≤ i → (i ∈ opens ↔ i ∈ (pairsFrom
        (pending' ++ [(name, start)])
        ((w.2 ++ blockTail written close).zipIdx (k + body.length + 1))).map Prod.fst) := by
      intro i hi
      rw [htail i (by omega), blockTail_cons, List.zipIdx_cons, hcondition.pairsFrom_cons]
    rw [List.zipIdx_append, List.foldlM_append, bind_eq_ok]
    refine ⟨_, hrun, ?_⟩
    rw [blockTail_cons, List.zipIdx_cons, List.foldlM_cons, bind_eq_ok]
    refine ⟨_, hstep, ?_⟩
    have hnextName : next.call.name = name := hname
    rw [ih (fun b hb => hif b (by simp [hb])) hnextLast hnext hnextName rfl hnextElse hpending'
      (by omega) hnextOpens]
    simp [next, filled, OpenBlock.next]

open Token in
/-- **A block is put together from its branches.** An opening tag, a main body, further bodies
behind their `else` tags, and a closing tag of the same name are one block, whose branches hold the
conditions of the `else` tags and the nodes that the bodies have by themselves. A body may have
opening tags of other names without a closing tag; conditions stand in blocks named `if` only, and
an `else` without one comes last. -/
theorem Template.ofTokens_block {tag : Tag} {line closeLine : Nat} {call : Call}
    (hcall : Call.ofTag line tag = .ok call)
    {main : List Token} {nodes : List Node} (hmain : IsBody tag.name main nodes)
    {written : List (Token × List Token)} {branches : List (Branch Node)}
    (hwritten : List.Forall₂
      (fun w branch => IsElse w.1 branch.condition ∧ IsBody tag.name w.2 branch.body)
      written branches)
    (hif : ∀ branch ∈ branches, branch.condition.isSome → tag.name = "if")
    (hlast : ∀ branch ∈ branches.dropLast, branch.condition.isSome) :
    Template.ofTokens
        ([⟨.opening tag, line⟩] ++ main ++ written.flatMap (fun w => w.1 :: w.2) ++
          [⟨.closing tag.name, closeLine⟩]) =
      .ok ⟨[.block call (⟨none, nodes⟩ :: branches)]⟩ := by
  let close : Token := ⟨.closing tag.name, closeLine⟩
  let tokens : List Token := ⟨.opening tag, line⟩ :: (main ++ blockTail written close)
  have htokens : [⟨.opening tag, line⟩] ++ main ++ written.flatMap (fun w => w.1 :: w.2) ++
      [⟨.closing tag.name, closeLine⟩] = tokens := by
    simp [tokens, close, blockTail]
  have hpairs : pairedOpens tokens = (pairsFrom ([] ++ [(tag.name, 0)])
      ((main ++ blockTail written close).zipIdx 1)).map Prod.fst := rfl
  have hopen : 0 ∈ pairedOpens tokens := by
    obtain ⟨left, hleft, happend⟩ := hmain.pairsName.pairsFrom_append 1 [(tag.name, 0)]
      ((blockTail written close).zipIdx (1 + main.length))
    rw [hpairs, List.zipIdx_append, List.nil_append, happend, List.map_append]
    exact List.mem_append_right _
      (pairsFrom_blockTail (isElse_and_pairsName hwritten) rfl hleft 0 (1 + main.length)).1
  have hstep : Assembly.step (pairedOpens tokens) Assembly.empty (⟨.opening tag, line⟩, 0) =
      .ok (Assembly.empty.openBlock 0 call) := by
    have hpiece : Piece.ofToken? ⟨.opening tag, line⟩ = .ok (some (.opening call)) := by
      simp [Piece.ofToken?, hcall, Except.map]
    rw [Assembly.step, hpiece]
    exact if_pos (by simpa using hopen)
  have hnone : ∀ e ∈ ([] : List (String × Nat)), e.1 ≠ tag.name := by simp
  have hopens : ∀ i, 1 ≤ i → (i ∈ pairedOpens tokens ↔ i ∈ (pairsFrom ([] ++ [(tag.name, 0)])
      ((main ++ blockTail written close).zipIdx 1)).map Prod.fst) := fun i _ => by rw [hpairs]
  have hrun := Assembly.foldlM_branches (show close.kind = .closing tag.name from rfl) hwritten hif
    hlast hmain (show (OpenBlock.mk 0 call [] none [] false).call.name = tag.name from
      Call.name_ofTag hcall) rfl (by simp) hnone Nat.zero_lt_one hopens
  rw [htokens, ofTokens, List.zipIdx_cons, List.foldlM_cons, bind_eq_ok]
  refine ⟨⟨[], [.block call (⟨none, nodes⟩ :: branches)]⟩, ?_, rfl⟩
  rw [bind_eq_ok]
  exact ⟨_, hstep, hrun⟩

open Token in
/-- An opening tag is left pending in the main body, a closing tag of its name stands in the next
branch, and the last branch has a block of the same name as the whole. -/
theorem Template.ofTokens_block_if :
    let path (name : String) : Path := ⟨name, false, 0, [name], none⟩
    let call (name arg : String) : Call := ⟨name, path name, [.path (path arg)], [], 1⟩
    let opening (name arg : String) : Token := ⟨.opening ⟨name, [arg], []⟩, 1⟩
    let closing (name : String) : Token := ⟨.closing name, 1⟩
    let written : List (Token × List Token) :=
      [(⟨.output ⟨"elseif", ["c"], []⟩ true, 1⟩, [opening "upper" "d", closing "upper"]),
        (⟨.output ⟨"else", [], []⟩ true, 1⟩, [opening "if" "e", closing "if"])]
    Template.ofTokens
        ([opening "if" "a"] ++ [⟨.text "x", 1⟩, opening "upper" "b"] ++
          written.flatMap (fun w => w.1 :: w.2) ++ [closing "if"]) =
      .ok ⟨[.block (call "if" "a")
        [⟨none, [.text "x", .inline (call "upper" "b")]⟩,
          ⟨some (.path (path "c")), [.block (call "upper" "d") [⟨none, []⟩]]⟩,
          ⟨none, [.block (call "if" "e") [⟨none, []⟩]]⟩]]⟩ :=
  Template.ofTokens_block rfl ⟨rfl, by decide⟩
    (.cons ⟨⟨_, _, rfl, .inr rfl, rfl⟩, rfl, by decide⟩
      (.cons ⟨⟨_, _, rfl, .inl rfl, rfl⟩, rfl, by decide⟩ .nil))
    (by simp) (by simp)

end Stencil
