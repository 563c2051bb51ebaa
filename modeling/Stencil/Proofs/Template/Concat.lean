import Stencil.Proofs.Template.Lines
import Stencil.Proofs.Template.Nesting
import Stencil.Proofs.Token.Locality

/-!
# Trees of two texts, one behind the other

The tree of a text that is put behind another one is known from the trees of the two: its nodes are
those of the first text and those of the second one, on lines further down, and a text at the seam
is one node. Closing tags of the second text find the opening tags that they find without the first
text, since those that the first text leaves pending lie further out.

## Main definitions

* `appendNodes` - nodes behind nodes
* `Assembly.follow` - a tree in the making, behind a tree that is finished

Main statement: `Template.parse_append`.
-/

namespace Stencil

open Text

/-! ### Nodes behind nodes -/

/-- Nodes behind nodes. A text at the front of the second list joins a text at the end of the first
one. -/
def appendNodes (front back : List Node) : List Node :=
  match back with
  | .text body :: rest => Assembly.appendText body front ++ rest
  | back => front ++ back

namespace Assembly

variable {front nodes : List Node} {node : Node} {body : String}

theorem appendText_concat (nodes : List Node) (x y : String) :
    appendText y (nodes ++ [.text x]) = nodes ++ [.text (x ++ y)] := by
  simp [appendText]

theorem appendText_of_not_text (h : ∀ x, nodes.getLast? ≠ some (.text x)) :
    appendText body nodes = nodes ++ [.text body] := by
  unfold appendText
  split
  · next x hlast => exact absurd hlast (h x)
  · rfl

theorem appendText_appendText (nodes : List Node) (x y : String) :
    appendText y (appendText x nodes) = appendText (x ++ y) nodes := by
  by_cases hlast : ∃ w, nodes.getLast? = some (.text w)
  · obtain ⟨w, hlast⟩ := hlast
    obtain ⟨init, rfl⟩ := List.getLast?_eq_some_iff.1 hlast
    rw [appendText_concat, appendText_concat, appendText_concat, String.append_assoc]
  · push Not at hlast
    rw [appendText_of_not_text hlast, appendText_of_not_text hlast, appendText_concat]

/-- A text joins the last node, so nodes in front of that one have no part in it. -/
theorem appendText_append (hnodes : nodes ≠ []) :
    appendText body (front ++ nodes) = front ++ appendText body nodes := by
  unfold appendText
  rw [List.getLast?_append_of_ne_nil _ hnodes, List.dropLast_append_of_ne_nil hnodes]
  split <;> rw [List.append_assoc]

theorem appendNodes_of_not_text (h : ∀ body, nodes.head? ≠ some (.text body)) :
    appendNodes front nodes = front ++ nodes := by
  unfold appendNodes
  split
  · next body rest => exact absurd rfl (h body)
  · rfl

theorem appendNodes_nil (front : List Node) : appendNodes front [] = front :=
  List.append_nil front

theorem appendNodes_appendText (front nodes : List Node) (body : String) :
    appendNodes front (appendText body nodes) = appendText body (appendNodes front nodes) := by
  cases nodes with
  | nil =>
    rw [appendNodes_nil]
    exact List.append_nil _
  | cons first nodes =>
    by_cases htext : ∃ x, first = .text x
    · obtain ⟨x, rfl⟩ := htext
      cases nodes with
      | nil =>
        rw [← List.nil_append [Node.text x], appendText_concat]
        simp only [List.nil_append, appendNodes, List.append_nil, appendText_appendText]
      | cons second nodes =>
        rw [← List.singleton_append, appendText_append (List.cons_ne_nil second nodes)]
        simp only [List.singleton_append, appendNodes]
        rw [appendText_append (List.cons_ne_nil second nodes)]
    · push Not at htext
      have hhead : (appendText body (first :: nodes)).head? = some first := by
        cases nodes with
        | nil => rw [appendText_of_not_text (by simpa using htext)]; rfl
        | cons second nodes =>
          rw [← List.singleton_append, appendText_append (List.cons_ne_nil second nodes)]
          rfl
      rw [appendNodes_of_not_text (by simpa [hhead] using htext),
        appendNodes_of_not_text (by simpa using htext),
        appendText_append (List.cons_ne_nil first nodes)]

theorem appendNodes_concat (hnode : ∀ body, node ≠ .text body) :
    appendNodes front (nodes ++ [node]) = appendNodes front nodes ++ [node] := by
  cases nodes with
  | nil =>
    rw [List.nil_append, appendNodes_nil, appendNodes_of_not_text]
    intro body hbody
    exact hnode body (by simpa using hbody)
  | cons first nodes => cases first <;> simp [appendNodes]

end Assembly

/-! ### Lines of nodes behind nodes -/

theorem nodesMoveLines_concat (d : Nat) (nodes : List Node) (node : Node) :
    nodesMoveLines d (nodes ++ [node]) = nodesMoveLines d nodes ++ [node.moveLines d] := by
  simp only [nodesMoveLines_eq_map, List.map_append, List.map_cons, List.map_nil]

theorem Node.moveLines_eq_text {d : Nat} {node : Node} {body : String} :
    node.moveLines d = .text body ↔ node = .text body := by
  cases node <;> simp [Node.moveLines]

theorem nodesMoveLines_appendText (d : Nat) (body : String) (nodes : List Node) :
    nodesMoveLines d (Assembly.appendText body nodes) =
      Assembly.appendText body (nodesMoveLines d nodes) := by
  by_cases hlast : ∃ x, nodes.getLast? = some (.text x)
  · obtain ⟨x, hlast⟩ := hlast
    obtain ⟨init, rfl⟩ := List.getLast?_eq_some_iff.1 hlast
    rw [Assembly.appendText_concat, nodesMoveLines_concat, nodesMoveLines_concat]
    exact (Assembly.appendText_concat _ _ _).symm
  · push Not at hlast
    rw [Assembly.appendText_of_not_text hlast, Assembly.appendText_of_not_text,
      nodesMoveLines_concat, Node.moveLines]
    intro x hx
    rw [nodesMoveLines_eq_map, List.getLast?_map, Option.map_eq_some_iff] at hx
    obtain ⟨last, hmem, htext⟩ := hx
    exact hlast x (hmem.trans (congrArg some (Node.moveLines_eq_text.1 htext)))

/-! ### A tree in the making behind another tree -/

/-- An open block whose opening tag stands further back in the row, on a line further down. -/
def OpenBlock.move (k d : Nat) (block : OpenBlock) : OpenBlock :=
  { start := block.start + k
    call := block.call.moveLines d
    branches := branchesMoveLines d block.branches
    condition := block.condition
    body := nodesMoveLines d block.body
    afterElse := block.afterElse }

namespace Assembly

variable {opens opens' : List Nat} {a a' : Assembly} (front : List Node) (k d : Nat)

/-- A tree in the making behind the nodes of another tree. Its tokens stand `k` places further back
in the row and `d` lines further down. -/
def follow (a : Assembly) : Assembly :=
  ⟨a.blocks.map (OpenBlock.move k d), appendNodes front (nodesMoveLines d a.nodes)⟩

theorem follow_empty : empty.follow front k d = ⟨[], front⟩ := by
  simp only [follow, empty, List.map_nil, nodesMoveLines, appendNodes_nil]

/-- A change of the list of nodes that is being filled, where it neither depends on lines nor on
the nodes in front of them. -/
theorem follow_modifyBody {f f' : List Node → List Node} (a : Assembly)
    (hlines : ∀ nodes, nodesMoveLines d (f nodes) = f' (nodesMoveLines d nodes))
    (hfront : ∀ nodes, appendNodes front (f' nodes) = f' (appendNodes front nodes)) :
    (a.modifyBody f).follow front k d = (a.follow front k d).modifyBody f' := by
  obtain ⟨blocks, nodes⟩ := a
  cases blocks with
  | nil => simp only [modifyBody, follow, List.map_nil, hlines, hfront]
  | cons block blocks => simp only [modifyBody, follow, List.map_cons, OpenBlock.move, hlines]

theorem follow_text (a : Assembly) (body : String) :
    (a.modifyBody (appendText body)).follow front k d =
      (a.follow front k d).modifyBody (appendText body) :=
  follow_modifyBody front k d a (nodesMoveLines_appendText d body)
    fun nodes => appendNodes_appendText front nodes body

theorem follow_push (a : Assembly) {node : Node} (hnode : ∀ body, node ≠ .text body) :
    (a.push node).follow front k d = (a.follow front k d).push (node.moveLines d) :=
  follow_modifyBody front k d a (fun nodes => nodesMoveLines_concat d nodes node)
    fun _ => appendNodes_concat fun body h => hnode body (Node.moveLines_eq_text.1 h)

/-- What a piece does is the same behind another tree: it touches the nodes of that tree only to
join a text at its end. -/
theorem place_follow {line position : Nat} {paired : Bool} {piece : Piece}
    (h : a.place line position paired piece = .ok a') :
    (a.follow front k d).place (line + d) (position + k) paired (piece.moveLines d) =
      .ok (a'.follow front k d) := by
  cases piece with
  | text body =>
    obtain rfl : a.modifyBody (appendText body) = a' := by simpa [place] using h
    rw [follow_text]
    rfl
  | raw body =>
    obtain rfl : a.push (.raw body) = a' := by simpa [place] using h
    rw [follow_push front k d a (by simp)]
    rfl
  | output call escaped =>
    obtain rfl : a.push (.output call escaped) = a' := by simpa [place] using h
    rw [follow_push front k d a (by simp)]
    rfl
  | partialTag name context line =>
    obtain rfl : a.push (.partialTag name context line) = a' := by simpa [place] using h
    rw [follow_push front k d a (by simp)]
    rfl
  | opening call =>
    rcases place_opening_eq_ok.1 h with ⟨hpaired, rfl⟩ | ⟨hpaired, hhelper, rfl⟩
    · exact place_opening_eq_ok.2 (.inl ⟨hpaired, rfl⟩)
    · rw [follow_push front k d a (by simp)]
      exact place_opening_eq_ok.2 (.inr ⟨hpaired, hhelper, rfl⟩)
  | elseMark condition =>
    obtain ⟨block, blocks, hblocks, hafter, hcondition, rfl⟩ := nextBranch_eq_ok.1 h
    refine nextBranch_eq_ok.2 ⟨block.move k d, blocks.map (OpenBlock.move k d), ?_, hafter,
      hcondition, ?_⟩
    · simp [follow, hblocks]
    · simp [follow, OpenBlock.move, branchesMoveLines_eq_map, nodesMoveLines]
  | closing name =>
    obtain ⟨block, blocks, hblocks, hname, rfl⟩ := closeBlock_eq_ok.1 h
    rw [follow_push front k d _ (by simp)]
    refine closeBlock_eq_ok.2 ⟨block.move k d, blocks.map (OpenBlock.move k d), ?_, hname, ?_⟩
    · simp [follow, hblocks]
    · simp [follow, OpenBlock.move, branchesMoveLines_eq_map, Node.moveLines]

theorem step_follow {token : Token} {i : Nat} (h : step opens a (token, i) = .ok a')
    (hopens : i + k ∈ opens' ↔ i ∈ opens) :
    step opens' (a.follow front k d) (token.moveLines d, i + k) = .ok (a'.follow front k d) := by
  rw [step, bind_eq_ok] at h ⊢
  obtain ⟨piece?, hpiece, h⟩ := h
  refine ⟨piece?.map (Piece.moveLines d), Piece.ofToken?_moveLines hpiece d, ?_⟩
  cases piece? with
  | none =>
    obtain rfl : a = a' := by simpa [pure, Except.pure] using h
    rfl
  | some piece =>
    have hpaired : decide (i + k ∈ opens') = decide (i ∈ opens) := decide_eq_decide.2 hopens
    simp only [Option.map_some, hpaired]
    exact place_follow front k d h

theorem foldlM_follow {entries : List (Token × Nat)} (h : entries.foldlM (step opens) a = .ok a')
    (hopens : ∀ entry ∈ entries, (entry.2 + k ∈ opens' ↔ entry.2 ∈ opens)) :
    (entries.map (Prod.map (Token.moveLines d) (· + k))).foldlM (step opens')
        (a.follow front k d) = .ok (a'.follow front k d) := by
  induction entries generalizing a with
  | nil =>
    obtain rfl : a = a' := by simpa [pure, Except.pure] using h
    rfl
  | cons entry entries ih =>
    rw [List.foldlM_cons, bind_eq_ok] at h
    obtain ⟨mid, hstep, h⟩ := h
    rw [List.map_cons, List.foldlM_cons, bind_eq_ok]
    exact ⟨_, step_follow front k d hstep (hopens entry (by simp)),
      ih h fun entry' hentry' => hopens entry' (by simp [hentry'])⟩

/-- Only the positions of the tokens of a row count among those of the opening tags. -/
theorem foldlM_congr {entries : List (Token × Nat)}
    (hopens : ∀ entry ∈ entries, (entry.2 ∈ opens' ↔ entry.2 ∈ opens)) (a : Assembly) :
    entries.foldlM (step opens') a = entries.foldlM (step opens) a := by
  induction entries generalizing a with
  | nil => rfl
  | cons entry entries ih =>
    have hpaired : decide (entry.2 ∈ opens') = decide (entry.2 ∈ opens) :=
      decide_eq_decide.2 (hopens entry (by simp))
    simp only [List.foldlM_cons, step, hpaired, ih fun entry' h => hopens entry' (by simp [h])]

/-- Takes up a text, unless it is empty. -/
def addText (a : Assembly) (text : List Char) : Assembly :=
  if text = [] then a else a.modifyBody (appendText (String.ofList text))

theorem foldlM_textToken (line : Nat) (text : List Char) (a : Assembly) :
    ((Token.textToken line text).zipIdx k).foldlM (step opens) a = .ok (a.addText text) := by
  unfold Token.textToken addText
  split <;> rfl

theorem addText_append (a : Assembly) (x y : List Char) :
    (a.addText x).addText y = a.addText (x ++ y) := by
  obtain ⟨blocks, nodes⟩ := a
  by_cases hx : x = []
  · simp [addText, hx]
  · by_cases hy : y = []
    · simp [addText, hy]
    · cases blocks <;>
        simp [addText, hx, hy, modifyBody, appendText_appendText, String.ofList_append]

theorem follow_addText (a : Assembly) (text : List Char) :
    (a.addText text).follow front k d = (a.follow front k d).addText text := by
  unfold addText
  split
  · rfl
  · exact follow_text front k d a _

end Assembly

/-! ### Rows with a text at the seam -/

section Seam

open Token

variable {front back : List Token} {line line' : Nat} {x y : List Char} {s t : Template}

theorem filter_isBlockTag_textToken (line k : Nat) (text : List Char) :
    ((textToken line text).zipIdx k).filter (fun entry => entry.1.isBlockTag) = [] := by
  unfold textToken
  split <;> rfl

/-- The pairs of two rows, one behind the other, are those of the first one and those of the second
one. Texts count for the places of what is behind them only. -/
theorem Template.pairs_seam (hs : ofTokens (front ++ textToken line x) = .ok s)
    (ht : ofTokens (textToken line' y ++ back) = .ok t) (d : Nat) {k : Nat}
    (hk : k + (textToken line' y).length = (front ++ textToken line (x ++ y)).length) :
    pairs (front ++ textToken line (x ++ y) ++ back.map (Token.moveLines d)) =
      pairs (front ++ textToken line x) ++
        (pairs (textToken line' y ++ back)).map (Prod.map (· + k) (· + k)) := by
  obtain ⟨left, hleft, -⟩ := exists_pendingAfter? hs
  obtain ⟨left', hleft', -⟩ := exists_pendingAfter? ht
  have hkind (token : Token) : (token.moveLines d).kind = token.kind := rfl
  have hparts : pairs (front ++ textToken line (x ++ y) ++ back.map (Token.moveLines d)) =
      pairsFrom [] ((front ++ textToken line x).zipIdx ++
        ((textToken line' y ++ back).map (Token.moveLines d)).zipIdx k) := by
    have hlength : k + (textToken (line' + d) y).length =
        (front ++ textToken line (x ++ y)).length := by
      rw [← hk, ← map_moveLines_textToken, List.length_map]
    rw [pairs, ← pairsFrom_filter, ← pairsFrom_filter [] (_ ++ _)]
    simp only [List.map_append, map_moveLines_textToken, List.zipIdx_append, List.filter_append,
      filter_isBlockTag_textToken, List.append_nil, List.nil_append, hlength, Nat.zero_add]
  have hback := pairsFrom_zipIdx_append hkind hleft' k left []
  rw [List.append_nil] at hback
  rw [hparts, ← List.append_nil [], pairsFrom_append hleft, List.append_nil, hback]
  simp [pairs, pairsFrom]

theorem length_textToken_append (line line' : Nat) (x y : List Char) :
    (textToken line x).length ≤ (textToken line' (x ++ y)).length ∧
      (textToken line y).length ≤ (textToken line' (x ++ y)).length := by
  unfold textToken
  by_cases hx : x = [] <;> by_cases hy : y = [] <;> simp [hx, hy]

/-- The opening tags that start a block in two rows, one behind the other: in front of the seam
those of the first row, behind it those of the second row, `k` places further back. -/
theorem Template.mem_pairedOpens_seam (hs : ofTokens (front ++ textToken line x) = .ok s)
    (ht : ofTokens (textToken line' y ++ back) = .ok t) (d : Nat) {k : Nat}
    (hk : k + (textToken line' y).length = (front ++ textToken line (x ++ y)).length) :
    let opens := pairedOpens (front ++ textToken line (x ++ y) ++ back.map (Token.moveLines d))
    (∀ i < front.length, (i ∈ opens ↔ i ∈ pairedOpens (front ++ textToken line x))) ∧
      ∀ i, (textToken line' y).length ≤ i →
        (i + k ∈ opens ↔ i ∈ pairedOpens (textToken line' y ++ back)) := by
  intro opens
  have hopens (i : Nat) : i ∈ opens ↔ i ∈ pairedOpens (front ++ textToken line x) ∨
      ∃ j ∈ pairedOpens (textToken line' y ++ back), j + k = i := by
    simp only [opens, pairedOpens, pairs_seam hs ht d hk, List.map_append, List.mem_append,
      List.map_map]
    simp
  have hx := (length_textToken_append line line x y).1
  have hy := (length_textToken_append line' line x y).2
  rw [List.length_append] at hk
  constructor
  · intro i hi
    rw [hopens, or_iff_left]
    rintro ⟨j, -, hj⟩
    omega
  · intro i hi
    rw [hopens, or_iff_right]
    · simp
    · intro hmem
      have := lt_length_of_mem_pairedOpens hmem
      rw [List.length_append] at this
      omega

/-- The tree of two rows, one behind the other, where a text at the seam is one token. -/
theorem Template.ofTokens_seam (hs : ofTokens (front ++ textToken line x) = .ok s)
    (ht : ofTokens (textToken line' y ++ back) = .ok t) (d : Nat) :
    ofTokens (front ++ textToken line (x ++ y) ++ back.map (Token.moveLines d)) =
      .ok ⟨appendNodes s.nodes (nodesMoveLines d t.nodes)⟩ := by
  obtain ⟨k, hk⟩ : ∃ k, k + (textToken line' y).length =
      (front ++ textToken line (x ++ y)).length := by
    have hy := (length_textToken_append line' line x y).2
    rw [List.length_append]
    exact ⟨_, Nat.sub_add_cancel (Nat.le_trans hy (Nat.le_add_left _ _))⟩
  obtain ⟨hopensFront, hopensBack⟩ := mem_pairedOpens_seam hs ht d hk
  have hfirst := foldlM_of_ofTokens hs
  have hsecond := foldlM_of_ofTokens ht
  rw [List.zipIdx_append, List.foldlM_append, bind_eq_ok] at hfirst hsecond
  obtain ⟨mid, hfront, hx⟩ := hfirst
  obtain ⟨start, hy, hback⟩ := hsecond
  rw [Assembly.foldlM_textToken] at hx hy
  obtain rfl := Except.ok.inj hy
  rw [ofTokens, List.zipIdx_append, List.foldlM_append, bind_eq_ok]
  refine ⟨(⟨[], t.nodes⟩ : Assembly).follow s.nodes k d, ?_, rfl⟩
  rw [bind_eq_ok]
  refine ⟨(Assembly.empty.addText y).follow s.nodes k d, ?_, ?_⟩
  · -- The text at the seam is what the first row ends with and what the second row starts with.
    have hseam : mid.addText (x ++ y) = (Assembly.empty.addText y).follow s.nodes k d := by
      rw [← Assembly.addText_append, Except.ok.inj hx, Assembly.follow_addText,
        Assembly.follow_empty]
    rw [List.zipIdx_append, List.foldlM_append, bind_eq_ok]
    refine ⟨mid, ?_, ?_⟩
    · rw [← hfront]
      exact Assembly.foldlM_congr
        (fun entry hentry => hopensFront entry.2 (List.snd_lt_of_mem_zipIdx hentry)) _
    · rw [Assembly.foldlM_textToken, hseam]
  · rw [Nat.zero_add, ← hk, zipIdx_map_add]
    rw [Nat.zero_add] at hback
    exact Assembly.foldlM_follow s.nodes k d hback fun entry hentry =>
      hopensBack entry.2 (List.le_snd_of_mem_zipIdx hentry)

end Seam

/-- **The tree of two texts, one behind the other.** Its nodes are those of the first text and those
of the second one, on lines that are further down by the line feeds of the first text; a text at the
end of the first tree and a text at the front of the second one are one text. Only where the first
text ends and the second one starts with an opening brace the two can make another tag. -/
theorem Template.parse_append {a b : String} {s t : Template} (ha : Template.parse a = .ok s)
    (hb : Template.parse b = .ok t)
    (hbraces : ¬ (a.toList.getLast? = some '\x7b' ∧ b.toList.head? = some '\x7b')) :
    Template.parse (a ++ b) =
      .ok ⟨appendNodes s.nodes (nodesMoveLines (lineFeeds a.toList) t.nodes)⟩ := by
  obtain ⟨ta, hscanA, hs⟩ := bind_eq_ok.1 ha
  obtain ⟨tb, hscanB, ht⟩ := bind_eq_ok.1 hb
  have hmeets : Token.MeetsAt a.toList b.toList := fun hlast hhead => hbraces ⟨hlast, hhead⟩
  -- The tokens of the second text, on the lines on which they are behind the first one.
  let d := lineFeeds a.toList
  have hmoved := (Token.scans_iff.1 hscanB).moveLines d
  obtain ⟨front, back, l, x, y, rfl, hback, hscans⟩ :=
    (Token.scans_iff.1 hscanA).append hmoved hmeets
  obtain ⟨seam, back, rfl, hseam, rfl⟩ := List.map_eq_append_iff.1 hback
  obtain ⟨l', rfl⟩ := Token.exists_eq_textToken hseam
  have hscan : Token.scan (a ++ b) =
      .ok (front ++ Token.textToken l (x ++ y) ++ back.map (Token.moveLines d)) := by
    rw [Token.scan, String.toList_append]
    exact Token.scans_iff.2 hscans
  exact bind_eq_ok.2 ⟨_, hscan, Template.ofTokens_seam hs ht _⟩

/-- The first text leaves an opening tag without a closing tag and ends with a text; the second one
starts with a text and has a block of the same name. -/
theorem Template.parse_append_upper :
    let path (name : String) : Path := ⟨name, false, 0, [name], none⟩
    let a := "\x7b\x7b#upper x\x7d\x7d\na"
    let b := "b\x7b\x7b#upper y\x7d\x7dc\x7b\x7b/upper\x7d\x7d"
    let call (arg : String) (line : Nat) : Call :=
      ⟨"upper", path "upper", [.path (path arg)], [], line⟩
    let s : Template := ⟨[.inline (call "x" 1), .text "\na"]⟩
    let t : Template := ⟨[.text "b", .block (call "y" 1) [⟨none, [.text "c"]⟩]]⟩
    Template.parse a = .ok s ∧ Template.parse b = .ok t ∧
      ¬ (a.toList.getLast? = some '\x7b' ∧ b.toList.head? = some '\x7b') ∧
      Template.parse (a ++ b) = .ok ⟨[.inline (call "x" 1), .text "\nab",
        .block (call "y" 2) [⟨none, [.text "c"]⟩]]⟩ := by
  intro path a b call s t
  have hscanA : Token.scan a = .ok [⟨.opening ⟨"upper", ["x"], []⟩, 1⟩, ⟨.text "\na", 1⟩] :=
    toOption_eq_some.1 (by decide +kernel)
  have hscanB : Token.scan b = .ok [⟨.text "b", 1⟩, ⟨.opening ⟨"upper", ["y"], []⟩, 1⟩,
      ⟨.text "c", 1⟩, ⟨.closing "upper", 1⟩] :=
    toOption_eq_some.1 (by decide +kernel)
  have ha : Template.parse a = .ok s := bind_eq_ok.2 ⟨_, hscanA, rfl⟩
  have hb : Template.parse b = .ok t := bind_eq_ok.2 ⟨_, hscanB, rfl⟩
  have hbraces : ¬ (a.toList.getLast? = some '\x7b' ∧ b.toList.head? = some '\x7b') := by decide
  have hlines : lineFeeds a.toList = 1 := by decide
  refine ⟨ha, hb, hbraces, ?_⟩
  rw [Template.parse_append ha hb hbraces, hlines]
  rfl

end Stencil
