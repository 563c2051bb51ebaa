import Stencil.Proofs.Token.Pairing

/-!
# Open blocks and pending opening tags

While a tree is put together, the blocks on the stack are the pending opening tags that have a
closing tag further on, in the same order. So the innermost block and the closing tag that ends it
are a pair, and in a row of tokens that has a tree every closing tag has its opening tag.

## Main definitions

* `Assembly.Tracks` - the stack holds the pending opening tags that start a block
-/

namespace Stencil

theorem Call.name_ofTag {line : Nat} {tag : Tag} {call : Call}
    (h : Call.ofTag line tag = .ok call) : call.name = tag.name := by
  simp only [Call.ofTag, bind_eq_ok] at h
  obtain ⟨path, -, params, -, hash, -, h⟩ := h
  obtain rfl : (⟨tag.name, path, params, hash, line⟩ : Call) = call := by
    simpa [pure, Except.pure] using h
  rfl

namespace Assembly

variable {opens opens' : List Nat} {pending : List (String × Nat)} {a a' : Assembly}

/-- The names and positions of the open blocks, the innermost one first. -/
def heads (a : Assembly) : List (String × Nat) :=
  a.blocks.map fun block => (block.call.name, block.start)

/-- The open blocks are the pending opening tags at the positions `opens`, with the innermost
block first. -/
def Tracks (opens : List Nat) (pending : List (String × Nat)) (a : Assembly) : Prop :=
  a.heads = pending.filter fun e => e.2 ∈ opens

/-! ### The stack of blocks -/

@[simp]
theorem heads_modifyBody (a : Assembly) (f : List Node → List Node) :
    (a.modifyBody f).heads = a.heads := by
  obtain ⟨blocks, nodes⟩ := a
  cases blocks <;> rfl

@[simp]
theorem heads_push (a : Assembly) (node : Node) : (a.push node).heads = a.heads :=
  a.heads_modifyBody _

theorem heads_nextBranch {line : Nat} {condition : Option Param}
    (h : a.nextBranch line condition = .ok a') : a'.heads = a.heads := by
  obtain ⟨block, blocks, hblocks, -, -, rfl⟩ := nextBranch_eq_ok.1 h
  simp [heads, hblocks]

theorem heads_closeBlock {line : Nat} {name : String} (h : a.closeBlock line name = .ok a') :
    ∃ start, a.heads = (name, start) :: a'.heads := by
  obtain ⟨block, blocks, hblocks, rfl, rfl⟩ := closeBlock_eq_ok.1 h
  rw [heads_push]
  exact ⟨block.start, by simp [heads, hblocks]⟩

/-- What a token does to the stack of blocks. -/
theorem heads_step {token : Token} {i : Nat} (h : step opens a (token, i) = .ok a') :
    match token.kind with
    | .opening tag => a'.heads = if i ∈ opens then (tag.name, i) :: a.heads else a.heads
    | .closing name => ∃ start, a.heads = (name, start) :: a'.heads
    | _ => a'.heads = a.heads := by
  rw [step, bind_eq_ok] at h
  obtain ⟨piece?, hpiece, h⟩ := h
  obtain ⟨kind, line⟩ := token
  cases piece? with
  | none =>
    obtain ⟨body, rfl⟩ : ∃ body, kind = .comment body := Piece.kind_of_ofToken? hpiece
    obtain rfl := Except.ok.inj h
    rfl
  | some piece =>
    cases Piece.ofToken_of_ofToken? hpiece with
    | text body =>
      obtain rfl := Except.ok.inj h
      exact a.heads_modifyBody _
    | raw body =>
      obtain rfl := Except.ok.inj h
      exact a.heads_push _
    | closing name => exact heads_closeBlock h
    | opening hcall =>
      rcases place_opening_eq_ok.1 h with ⟨hopen, rfl⟩ | ⟨hopen, -, rfl⟩
      · simp [of_decide_eq_true hopen, heads, openBlock, Call.name_ofTag hcall]
      · simp [of_decide_eq_false hopen]
    | output =>
      obtain rfl := Except.ok.inj h
      exact a.heads_push _
    | elseMark => exact heads_nextBranch h
    | partialTag =>
      obtain rfl := Except.ok.inj h
      exact a.heads_push _

/-! ### The stack and the pending opening tags -/

/-- A closing tag that ends the innermost block takes the opening tag of that block, since no
pending opening tag further in has both the name and a closing tag. -/
theorem Tracks.takePending_eq_some {token : Token} {name : String} {i start : Nat}
    (ht : Tracks opens pending a) (hkind : token.kind = .closing name)
    (hheads : a.heads = (name, start) :: a'.heads)
    (hopens : ∀ pair ∈ Token.pairsFrom pending [(token, i)], pair.1 ∈ opens) :
    ∃ rest, Token.takePending name pending = some (start, rest) ∧ Tracks opens rest a' := by
  have hfilter : pending.filter (fun e => e.2 ∈ opens) = (name, start) :: a'.heads := by
    rw [← hheads, ← ht]
  -- The block is pending, so the closing tag takes some opening tag of the name. That one is
  -- paired and thus starts a block as well, which cannot lie further in than the innermost one.
  have hmem : (name, start) ∈ pending.filter fun e => e.2 ∈ opens := by simp [hfilter]
  obtain ⟨j, rest, htake⟩ := Token.exists_takePending (List.mem_filter.1 hmem).1
  have hj : j ∈ opens := hopens (j, i) (by simp [Token.pairsFrom, hkind, htake])
  obtain ⟨hrest, rfl⟩ := Token.filter_of_takePending htake (by simpa using hj) hfilter
  exact ⟨rest, htake, hrest.symm⟩

/-- One token keeps the stack and the pending opening tags together. -/
theorem Tracks.step {token : Token} {i : Nat} (ht : Tracks opens pending a)
    (h : step opens a (token, i) = .ok a')
    (hopens : ∀ pair ∈ Token.pairsFrom pending [(token, i)], pair.1 ∈ opens) :
    ∃ left, Token.pendingAfter? pending [(token, i)] = some left ∧ Tracks opens left a' := by
  have hheads := heads_step h
  cases hkind : token.kind with
  | opening tag =>
    refine ⟨(tag.name, i) :: pending, by simp [Token.pendingAfter?, hkind], ?_⟩
    simp only [hkind] at hheads
    by_cases hopen : i ∈ opens
    · rw [Tracks, hheads, if_pos hopen, List.filter_cons_of_pos (by simpa using hopen), ht]
    · rw [Tracks, hheads, if_neg hopen, List.filter_cons_of_neg (by simpa using hopen), ht]
  | closing name =>
    simp only [hkind] at hheads
    obtain ⟨start, hstart⟩ := hheads
    obtain ⟨rest, htake, hrest⟩ := ht.takePending_eq_some hkind hstart hopens
    exact ⟨rest, by simp [Token.pendingAfter?, hkind, htake], hrest⟩
  | _ =>
    simp only [hkind] at hheads
    exact ⟨pending, by simp [Token.pendingAfter?, hkind], by rw [Tracks, hheads, ht]⟩

/-- A run keeps the stack and the pending opening tags together, if `opens` has the positions of
all opening tags that the row pairs. -/
theorem Tracks.foldlM {entries : List (Token × Nat)} (ht : Tracks opens pending a)
    (h : entries.foldlM (Assembly.step opens) a = .ok a')
    (hopens : ∀ pair ∈ Token.pairsFrom pending entries, pair.1 ∈ opens) :
    ∃ left, Token.pendingAfter? pending entries = some left ∧ Tracks opens left a' := by
  induction entries generalizing a pending with
  | nil =>
    obtain rfl : a = a' := by simpa [pure, Except.pure] using h
    exact ⟨pending, rfl, ht⟩
  | cons entry entries ih =>
    rw [List.foldlM_cons, bind_eq_ok] at h
    obtain ⟨mid, hstep, h⟩ := h
    obtain ⟨next, hnext, hmid⟩ := ht.step hstep fun pair hpair =>
      hopens pair (Token.pairsFrom_subset_append _ [entry] entries hpair)
    -- The pairs of the row are those of its first token and those of the rest.
    have hpairs : Token.pairsFrom (pending ++ []) ([entry] ++ entries) =
        Token.pairsFrom pending [entry] ++ Token.pairsFrom (next ++ []) entries :=
      Token.pairsFrom_append hnext
    simp only [List.append_nil, List.singleton_append] at hpairs
    rw [← List.singleton_append, Token.pendingAfter?_append hnext]
    refine ih hmid h fun pair hpair => hopens pair ?_
    rw [hpairs]
    exact List.mem_append_right _ hpair

end Assembly

/-- In a row of tokens that has a tree every closing tag has its opening tag, and no opening tag
that is left pending starts a block. -/
theorem Template.exists_pendingAfter? {tokens : List Token} {t : Template}
    (h : Template.ofTokens tokens = .ok t) :
    ∃ left, Token.pendingAfter? [] tokens.zipIdx = some left ∧
      ∀ e ∈ left, e.2 ∉ Token.pairedOpens tokens := by
  have hstart : Assembly.Tracks (Token.pairedOpens tokens) [] Assembly.empty := rfl
  obtain ⟨left, hleft, ht⟩ :=
    hstart.foldlM (foldlM_of_ofTokens h) fun pair hpair => List.mem_map_of_mem hpair
  refine ⟨left, hleft, fun e he hopen => ?_⟩
  have hmem : e ∈ left.filter fun e => e.2 ∈ Token.pairedOpens tokens :=
    List.mem_filter.2 ⟨he, by simpa using hopen⟩
  rw [← ht] at hmem
  simp [Assembly.heads] at hmem

/-- A row of tokens that has a tree is paired in itself, but for opening tags without a closing
tag. -/
theorem Template.pairsName_of_ofTokens {tokens : List Token} {t : Template} {name : String}
    (h : Template.ofTokens tokens = .ok t)
    (hname : ∀ entry ∈ tokens.zipIdx, entry.1.isOpening name →
      entry.2 ∈ Token.pairedOpens tokens) :
    Token.PairsName name tokens := by
  obtain ⟨left, hleft, hunpaired⟩ := Template.exists_pendingAfter? h
  refine ⟨left, hleft, fun e he heq => hunpaired e he ?_⟩
  rcases Token.of_mem_pendingAfter? hleft he with hmem | ⟨token, hmem, hopening⟩
  · simp at hmem
  · exact hname (token, e.2) hmem (heq ▸ hopening)

end Stencil
