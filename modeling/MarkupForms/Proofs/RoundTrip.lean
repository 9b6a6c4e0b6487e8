import MarkupForms.Template
import MarkupForms.Proofs.Grammar
import MarkupForms.Proofs.Lexing

/-!
# Written trees read back

A tree can be written and read back exactly when its names are atoms, its keys are distinct atoms,
its attributes are leaves, its variables are paths, and there is no hole in it; texts may be
anything.

Writing goes along the tree: each piece of the written form is read into the tokens that the
grammar wants there, whatever was read before it.  The other way round, the tokens of a text are
written in a certain way, and so a derivation from them is a tree of this kind.

* `reads_node` : the written form of such a tree is read into tokens that derive it.
* `writable_of_isForm` : what is derived from the tokens of a text is such a tree.
* `Form.reads_back_iff_writable` : both together, about texts.
-/

namespace MarkupForms

open Grammar

/-! ## Trees that can be written -/

namespace Node

mutual

/-- Whether a node reads back from what is written for it. -/
def Writable : Node → Prop
  | .text _ => True
  | .var name => Text.isPath name.toList = true
  | .hole => False
  | .tag name none children => IsAtom name.toList ∧ AllWritable children
  | .tag name (some attributes) children =>
      IsAtom name.toList ∧ (attributes.map Prod.fst).Nodup ∧ EntriesWritable attributes ∧
        AllWritable children

/-- Whether nodes read back from what is written for them. -/
def AllWritable : List Node → Prop
  | [] => True
  | n :: ns => n.Writable ∧ AllWritable ns

/-- Whether attributes read back from what is written for them. -/
def EntriesWritable : List (String × Node) → Prop
  | [] => True
  | (key, n) :: rest => IsAtom key.toList ∧ n.IsLeaf ∧ n.Writable ∧ EntriesWritable rest

end

end Node

/-! ## Pieces of the written form -/

namespace Scanner

/-- Whether a text is read into tokens of a certain kind, whatever was read before it. -/
def Reads (u : List Char) (P : List Token → Prop) : Prop :=
  ∀ s : Scanner, s.mode = .between → ∃ ts, s.Yields u ts ∧ P ts

/-- Whether a text does not continue the word before it. -/
def StartsApart (u : List Char) : Prop :=
  ∀ c ∈ u.head?, isDelimiter c = true

variable {u v : List Char} {P Q : List Token → Prop}

theorem Reads.mono (h : Reads u P) (hPQ : ∀ ts, P ts → Q ts) : Reads u Q := by
  intro s hs
  obtain ⟨ts, hyields, hts⟩ := h s hs
  exact ⟨ts, hyields, hPQ ts hts⟩

theorem reads_nil : Reads [] (· = []) :=
  fun _ hs => ⟨[], yields_nil hs, rfl⟩

theorem Reads.append (hu : Reads u P) (hv : Reads v Q) (hcut : StartsApart v) :
    Reads (u ++ v) fun ts => ∃ us vs, ts = us ++ vs ∧ P us ∧ Q vs := by
  intro s hs
  obtain ⟨us, hyields, hus⟩ := hu s hs
  obtain ⟨vs, hmore, hvs⟩ := hv (s.run u).closeRun (mode_closeRun hyields.1)
  exact ⟨us ++ vs, hyields.append hmore hcut, us, vs, rfl, hus, hvs⟩

/-- A character that makes tokens at once is read in front of any text. -/
theorem Reads.step {c : Char} {R : List Token → Prop}
    (hc : ∀ s : Scanner, s.mode = .between → (s.step c).mode = .between ∧
      ∃ ts, (s.step c).tokens = ts.reverse ++ s.tokens ∧ R ts)
    (hv : Reads v Q) : Reads (c :: v) fun ts => ∃ us vs, ts = us ++ vs ∧ R us ∧ Q vs := by
  intro s hs
  obtain ⟨hbetween, us, htokens, hus⟩ := hc s hs
  obtain ⟨vs, hyields, hvs⟩ := hv (s.step c) hbetween
  exact ⟨us ++ vs, hyields.cons htokens, us, vs, rfl, hus, hvs⟩

theorem Reads.blank (hv : Reads v Q) : Reads (' ' :: v) Q := by
  refine (hv.step (R := (· = [])) fun s hs => ?_).mono ?_
  · rw [step_blank hs (by decide)]
    exact ⟨hs, [], rfl, rfl⟩
  · rintro ts ⟨us, vs, rfl, rfl, hvs⟩
    exact hvs

theorem Reads.opening (hv : Reads v Q) :
    Reads ('(' :: v) fun ts => ∃ o vs, ts = o :: vs ∧ o.kind = .lparen ∧ Q vs := by
  refine (hv.step (R := fun ts => ∃ o, ts = [o] ∧ o.kind = .lparen) fun s hs => ?_).mono ?_
  · rw [step_open hs]
    exact ⟨hs, _, rfl, _, rfl, rfl⟩
  · rintro ts ⟨us, vs, rfl, ⟨o, rfl, ho⟩, hvs⟩
    exact ⟨o, vs, rfl, ho, hvs⟩

theorem Reads.closing (hv : Reads v Q) :
    Reads (')' :: v) fun ts => ∃ c vs, ts = c :: vs ∧ c.kind = .rparen ∧ Q vs := by
  refine (hv.step (R := fun ts => ∃ c, ts = [c] ∧ c.kind = .rparen) fun s hs => ?_).mono ?_
  · rw [step_close hs]
    exact ⟨hs, _, rfl, _, rfl, rfl⟩
  · rintro ts ⟨us, vs, rfl, ⟨c, rfl, hc⟩, hvs⟩
    exact ⟨c, vs, rfl, hc, hvs⟩

theorem reads_atom {w : List Char} (hw : IsAtom w) :
    Reads w fun ts => ∃ a, ts = [a] ∧ a.kind = .atom ∧ a.value = String.ofList w := by
  intro s hs
  have hyields := yields_word hs hw.1
  rw [runToken_of_isAtom hw] at hyields
  exact ⟨_, hyields, _, rfl, rfl, rfl⟩

/-- An opening parenthesis and the mark of a block. -/
theorem Reads.mark (hv : Reads v Q) (hcut : StartsApart v) :
    Reads ('(' :: '@' :: v) fun ts =>
      ∃ o m vs, ts = o :: m :: vs ∧ o.kind = .lparen ∧ m.kind = .mark ∧ Q vs := by
  intro s hs
  have hstep := step_open hs
  have hword : IsWord ['@'] := by decide
  have hmark := yields_word (s := s.step '(') (by rw [hstep]; exact hs) hword
  obtain ⟨vs, hyields, hvs⟩ := hv ((s.step '(').run ['@']).closeRun (mode_closeRun hmark.1)
  have hkind :
      (runToken (endsOpen (s.step '(').tokens) (s.step '(').cursor ['@']).kind = .mark := by
    rw [hstep]
    rfl
  have htokens : (s.step '(').tokens = [⟨.lparen, "(", s.cursor⟩].reverse ++ s.tokens := by
    rw [hstep]
    rfl
  exact ⟨_, (hmark.append hyields hcut).cons htokens, _, _, vs, rfl, rfl, hkind, hvs⟩

end Scanner

/-! ## From trees to derivations -/

open Scanner

/-- A text that is written bare is read as an atom. -/
theorem isAtom_of_isBare {s : List Char} (h : Node.isBare s = true) : IsAtom s := by
  simp only [Node.isBare, Bool.and_eq_true, bne_iff_ne, ne_eq, List.all_eq_true] at h
  obtain ⟨⟨hne, hmark⟩, hchars⟩ := h
  refine ⟨⟨hne, fun c hc => ?_⟩, ?_, hmark⟩
  · have hbare := hchars c hc
    simp only [Node.isBareChar, Bool.not_eq_true', Bool.or_eq_false_iff] at hbare
    simp [isDelimiter, hbare]
  · unfold isReference
    split
    · exact absurd (hchars '$' List.mem_cons_self) (by decide)
    · rfl

/-- A leaf is written as one token. -/
theorem reads_leaf {n : Node} (hleaf : n.IsLeaf) (hn : n.Writable) :
    ∃ u, n.print? = some u ∧ Reads u fun ts => ∃ t, ts = [t] ∧ IsLeaf t n := by
  cases n with
  | text content =>
    refine ⟨_, by rw [Node.print?], ?_⟩
    cases hbare : Node.isBare content.toList with
    | true =>
      rw [Node.printLiteral_of_bare hbare]
      refine (reads_atom (isAtom_of_isBare hbare)).mono ?_
      rintro ts ⟨a, rfl, hkind, hvalue⟩
      rw [String.ofList_toList] at hvalue
      exact ⟨a, rfl, hvalue ▸ .atom hkind⟩
    | false =>
      rw [Node.printLiteral_of_not_bare hbare]
      intro s hs
      refine ⟨_, yields_quoted hs _, _, rfl, ?_⟩
      rw [String.ofList_toList]
      exact .string rfl
  | var name =>
    refine ⟨_, by rw [Node.print?], fun s hs => ?_⟩
    rw [Node.Writable] at hn
    refine ⟨_, yields_word hs (isWord_reference hn), _, rfl, ?_⟩
    simp only [runToken, isReference, hn, if_true, List.tail_cons, String.ofList_toList]
    exact .var rfl
  | tag => exact hleaf.elim
  | hole => exact hleaf.elim

theorem startsApart_cons {c : Char} (hc : isDelimiter c = true) (u : List Char) :
    StartsApart (c :: u) := by
  simpa [StartsApart] using hc

theorem startsApart_append {u v : List Char} (hu : StartsApart u) (hv : StartsApart v) :
    StartsApart (u ++ v) := by
  cases u with
  | nil => exact hv
  | cons c u => exact hu

/-- A pair is written between parentheses, in front of more pairs. -/
theorem reads_pair {key value more : List Char} {n : Node} {rest : Attributes} (hkey : IsAtom key)
    (hvalue : Reads value fun ts => ∃ t, ts = [t] ∧ IsLeaf t n)
    (hmore : Reads more fun ts => IsPairs ts rest) :
    Reads (' ' :: '(' :: (key ++ ' ' :: (value ++ ')' :: more))) fun ts =>
      IsPairs ts ((String.ofList key, n) :: rest) := by
  have hpair := hvalue.append hmore.closing (startsApart_cons (by decide) more)
  have hentry := (reads_atom hkey).append hpair.blank (startsApart_cons (by decide) _)
  refine hentry.opening.blank.mono ?_
  rintro ts ⟨o, _, rfl, ho, _, _, rfl, ⟨k, rfl, hk, hkey⟩, _, _, rfl, ⟨v, rfl, hv⟩, c, ts, rfl,
    hc, hts⟩
  exact hkey ▸ .cons ho hk hv hc hts

/-- Attributes are written as pairs. -/
theorem reads_entries {as : Attributes} (has : Node.EntriesWritable as) :
    ∃ u, Node.printEntries? as = some u ∧ StartsApart u ∧ Reads u fun ts => IsPairs ts as := by
  induction as with
  | nil =>
    refine ⟨[], by rw [Node.printEntries?], by simp [StartsApart], reads_nil.mono ?_⟩
    rintro ts rfl
    exact .nil
  | cons entry rest ih =>
    obtain ⟨key, n⟩ := entry
    rw [Node.EntriesWritable] at has
    obtain ⟨hkey, hleaf, hn, hrest⟩ := has
    obtain ⟨value, hvalue, hreads⟩ := reads_leaf hleaf hn
    obtain ⟨more, hmore, -, hreadsMore⟩ := ih hrest
    refine ⟨' ' :: '(' :: (key.toList ++ ' ' :: (value ++ ')' :: more)), ?_, ?_, ?_⟩
    · simp [Node.printEntries?, hvalue, hmore]
    · exact startsApart_cons (by decide) _
    · have hpair := reads_pair hkey hreads hreadsMore
      rwa [String.ofList_toList] at hpair

/-- What stands between the name of a tag and its last parenthesis. -/
theorem reads_tag {name inner : List Char} {R : List Token → Prop} (hname : IsAtom name)
    (hinner : Reads inner R) (hcut : StartsApart inner) :
    Reads ('(' :: (name ++ (inner ++ [')']))) fun ts => ∃ o a us c, ts = o :: a :: us ++ [c] ∧
      o.kind = .lparen ∧ a.kind = .atom ∧ a.value = String.ofList name ∧ R us ∧
      c.kind = .rparen := by
  have hlast := hinner.append reads_nil.closing (startsApart_cons (by decide) [])
  have hcut' := startsApart_append hcut (startsApart_cons (c := ')') (by decide) [])
  refine ((reads_atom hname).append hlast hcut').opening.mono ?_
  rintro ts ⟨o, _, rfl, ho, _, _, rfl, ⟨a, rfl, ha, hvalue⟩, us, _, rfl, hus, c, _, rfl, hc, rfl⟩
  exact ⟨o, a, us, c, rfl, ho, ha, hvalue, hus, hc⟩

/-- Pairs are written between parentheses, after the mark. -/
theorem reads_marked {u : List Char} {as : Attributes} (distinct : as.keys.Nodup)
    (hcut : StartsApart u) (hreads : Reads u fun ts => IsPairs ts as) :
    Reads (" (@".toList ++ (u ++ [')'])) fun ts => IsOptionalBlock ts (some as) := by
  have hlast := hreads.append reads_nil.closing (startsApart_cons (by decide) [])
  have hcut' := startsApart_append hcut (startsApart_cons (c := ')') (by decide) [])
  refine (hlast.mark hcut').blank.mono ?_
  rintro ts ⟨o, m, _, rfl, ho, hm, us, _, rfl, hus, c, _, rfl, hc, rfl⟩
  exact .some (.mk ho hm hus hc distinct)

/-- A block of attributes is written between parentheses, after the mark. -/
theorem reads_block {as : Attributes} (distinct : as.keys.Nodup) (has : Node.EntriesWritable as) :
    ∃ u, Node.printEntries? as = some u ∧
      Reads (" (@".toList ++ (u ++ [')'])) fun ts => IsOptionalBlock ts (some as) := by
  obtain ⟨u, hu, hcut, hreads⟩ := reads_entries has
  exact ⟨u, hu, reads_marked distinct hcut hreads⟩

/-- Whether tokens are those of a single child. -/
def IsChild (ts : List Token) (n : Node) : Prop :=
  (∃ t, ts = [t] ∧ IsLeaf t n) ∨ ∃ f, n = Form.toNode f ∧ IsForm ts f

theorem IsChild.cons {ts us : List Token} {n : Node} {ns : List Node} (h : IsChild ts n)
    (hus : IsChildren us ns) : IsChildren (ts ++ us) (n :: ns) := by
  rcases h with ⟨t, rfl, ht⟩ | ⟨f, rfl, hf⟩
  · exact .leaf ht hus
  · exact .form hf hus

mutual

/-- A node is written as a child. -/
theorem reads_node (n : Node) (h : n.Writable) :
    ∃ u, n.print? = some u ∧ Reads u fun ts => IsChild ts n := by
  match n with
  | .text _ | .var _ =>
    obtain ⟨u, hu, hreads⟩ := reads_leaf (by rw [Node.IsLeaf]; trivial) h
    exact ⟨u, hu, hreads.mono fun ts hts => .inl hts⟩
  | .hole => exact absurd h (by simp [Node.Writable])
  | .tag name none children =>
    rw [Node.Writable] at h
    obtain ⟨inner, hinner, hcut, hreads⟩ := reads_children children h.2
    refine ⟨_, by rw [Node.print?, hinner]; rfl, ?_⟩
    rw [List.cons_append, List.cons_append, List.append_assoc]
    refine (reads_tag h.1 hreads hcut).mono ?_
    rintro ts ⟨o, a, us, c, rfl, ho, ha, hvalue, hus, hc⟩
    rw [String.ofList_toList] at hvalue
    exact .inr ⟨⟨name, none, children⟩, rfl, hvalue ▸ .mk ho ha .none hus hc⟩
  | .tag name (some as) children =>
    rw [Node.Writable] at h
    obtain ⟨hname, distinct, has, hchildren⟩ := h
    obtain ⟨block, hblock, hreadsBlock⟩ := reads_block distinct has
    obtain ⟨inner, hinner, hcut, hreads⟩ := reads_children children hchildren
    refine ⟨_, by rw [Node.print?, hblock, hinner]; rfl, ?_⟩
    have hparts := reads_tag hname (hreadsBlock.append hreads hcut)
      (startsApart_cons (by decide) _)
    simp only [List.append_assoc, List.cons_append, List.nil_append] at hparts ⊢
    refine hparts.mono ?_
    rintro ts ⟨o, a, _, c, rfl, ho, ha, hvalue, ⟨us, vs, rfl, hus, hvs⟩, hc⟩
    rw [String.ofList_toList] at hvalue
    refine .inr ⟨⟨name, some as, children⟩, rfl, ?_⟩
    have hform := IsForm.mk ho ha hus hvs hc
    rw [hvalue] at hform
    simpa using hform

/-- Children are written one after the other. -/
theorem reads_children (ns : List Node) (h : Node.AllWritable ns) :
    ∃ u, Node.printChildren? ns = some u ∧ StartsApart u ∧ Reads u fun ts => IsChildren ts ns := by
  match ns with
  | [] =>
    refine ⟨[], by rw [Node.printChildren?], by simp [StartsApart], reads_nil.mono ?_⟩
    rintro ts rfl
    exact .nil
  | n :: ns =>
    rw [Node.AllWritable] at h
    obtain ⟨first, hfirst, hreads⟩ := reads_node n h.1
    obtain ⟨rest, hrest, hcut, hreadsRest⟩ := reads_children ns h.2
    refine ⟨' ' :: (first ++ rest), by rw [Node.printChildren?, hfirst, hrest]; rfl,
      startsApart_cons (by decide) _, ?_⟩
    refine (hreads.append hreadsRest hcut).blank.mono ?_
    rintro ts ⟨us, vs, rfl, hus, hvs⟩
    exact hus.cons hvs

end

/-! ## From derivations to trees -/

open Token (AreSpelled)

/-- The atom after an opening parenthesis names a tag or an attribute. -/
theorem isAtom_of_opened {o a : Token} {ts : List Token} (h : AreSpelled (o :: a :: ts))
    (ho : o.kind = .lparen) (ha : a.kind = .atom) : IsAtom a.value.toList ∧ AreSpelled ts := by
  obtain ⟨-, h, hfirst⟩ := Token.areSpelled_cons h
  obtain ⟨hspelled, hrest, -⟩ := Token.areSpelled_cons h
  rw [Token.IsSpelled, ha] at hspelled
  refine ⟨⟨hspelled.1, hspelled.2, fun hvalue => ?_⟩, hrest⟩
  have hmark : a.value = "@" := by rw [← String.toList_inj, hvalue]; rfl
  exact hfirst a rfl ho ha hmark

theorem writable_of_isLeaf {t : Token} {n : Node} (ht : t.IsSpelled) (h : IsLeaf t n) :
    n.IsLeaf ∧ n.Writable := by
  cases h with
  | atom hkind | string hkind => simp [Node.IsLeaf, Node.Writable]
  | var hkind =>
    rw [Token.IsSpelled, hkind] at ht
    simpa [Node.IsLeaf, Node.Writable] using ht

theorem entriesWritable_of_isPairs {ts : List Token} {as : Attributes} (hts : AreSpelled ts)
    (h : IsPairs ts as) : Node.EntriesWritable as := by
  induction h with
  | nil => simp [Node.EntriesWritable]
  | cons ho hk hv hc hrest ih =>
    obtain ⟨hkey, h⟩ := isAtom_of_opened hts ho hk
    obtain ⟨hvalue, h, -⟩ := Token.areSpelled_cons h
    obtain ⟨-, h, -⟩ := Token.areSpelled_cons h
    obtain ⟨hleaf, hn⟩ := writable_of_isLeaf hvalue hv
    rw [Node.EntriesWritable]
    exact ⟨hkey, hleaf, hn, ih h⟩

theorem entriesWritable_of_isBlock {ts : List Token} {as : Attributes} (hts : AreSpelled ts)
    (h : IsBlock ts as) : as.keys.Nodup ∧ Node.EntriesWritable as := by
  obtain ⟨-, -, hpairs, -, distinct⟩ := h
  obtain ⟨-, hts, -⟩ := Token.areSpelled_cons (Token.areSpelled_append hts).1
  obtain ⟨-, hts, -⟩ := Token.areSpelled_cons hts
  exact ⟨distinct, entriesWritable_of_isPairs hts hpairs⟩

mutual

/-- A form that is derived from the tokens of a text can be written. -/
theorem writable_of_isForm {ts : List Token} {f : Form} (hts : AreSpelled ts) (h : IsForm ts f) :
    f.toNode.Writable := by
  match h with
  | .mk ho ha hblock hchildren hc =>
    obtain ⟨hname, hts⟩ := isAtom_of_opened (Token.areSpelled_append hts).1 ho ha
    obtain ⟨hblockSpelled, hts⟩ := Token.areSpelled_append hts
    have hall := allWritable_of_isChildren hts hchildren
    cases hblock with
    | none =>
      rw [Form.toNode, Node.Writable]
      exact ⟨hname, hall⟩
    | some hblock =>
      obtain ⟨distinct, hentries⟩ := entriesWritable_of_isBlock hblockSpelled hblock
      rw [Form.toNode, Node.Writable]
      exact ⟨hname, distinct, hentries, hall⟩

/-- Children that are derived from the tokens of a text can be written. -/
theorem allWritable_of_isChildren {ts : List Token} {ns : List Node} (hts : AreSpelled ts)
    (h : IsChildren ts ns) : Node.AllWritable ns := by
  match h with
  | .nil => simp [Node.AllWritable]
  | .leaf hleaf hrest =>
    obtain ⟨ht, hts, -⟩ := Token.areSpelled_cons hts
    rw [Node.AllWritable]
    exact ⟨(writable_of_isLeaf ht hleaf).2, allWritable_of_isChildren hts hrest⟩
  | .form hform hrest =>
    obtain ⟨hfirst, hts⟩ := Token.areSpelled_append hts
    rw [Node.AllWritable]
    exact ⟨writable_of_isForm hfirst hform, allWritable_of_isChildren hts hrest⟩

end

/-! ## Texts -/

namespace Form

/-- The token for the end of a text is the only one of its kind. -/
theorem beforeEnd_of_areSpelled {ts : List Token} {e : Token} (h : AreSpelled ts)
    (he : e.kind = .eof) : beforeEnd (ts ++ [e]) = ts := by
  rw [beforeEnd_append_eof ts [] he]
  refine beforeEnd_eq_self ?_
  intro t ht
  have hspelled := h.1 t ht
  cases hkind : t.kind <;> simp_all [Token.IsSpelled]

/-- What is read from a text are the derivations from its tokens. -/
theorem ofText?_eq_ok_iff {text : String} {f : Form} :
    ofText? text = .ok f ↔
      ∃ ts e, Token.scan text.toList = .ok (ts ++ [e]) ∧ e.kind = .eof ∧ AreSpelled ts ∧
        IsForm ts f := by
  rw [ofText?, Token.ofText]
  constructor
  · intro h
    cases hscan : Token.scan text.toList with
    | error e => simp [hscan] at h
    | ok all =>
      obtain ⟨ts, e, rfl, he, hts⟩ := Token.spelled_of_scan hscan
      refine ⟨ts, e, rfl, he, hts, ?_⟩
      rw [hscan] at h
      cases hform : ofTokens? (ts ++ [e]) with
      | error e' => simp [hform] at h
      | ok g =>
        simp only [hform, Except.ok.injEq] at h
        rw [ofTokens?_eq_ok_iff, beforeEnd_of_areSpelled hts he] at hform
        exact h ▸ hform
  · rintro ⟨ts, e, hscan, he, hts, hform⟩
    rw [← beforeEnd_of_areSpelled hts he, ← ofTokens?_eq_ok_iff] at hform
    simp [hscan, hform]

/-- What is read from a text can be written. -/
theorem writable_of_ofText? {text : String} {f : Form} (h : ofText? text = .ok f) :
    f.toNode.Writable := by
  obtain ⟨ts, e, -, -, hts, hform⟩ := ofText?_eq_ok_iff.1 h
  exact writable_of_isForm hts hform

/-- A text whose tokens derive a form is written for it. -/
theorem ofText?_of_reads {text : String} {f : Form}
    (h : Reads text.toList fun ts => IsForm ts f) : ofText? text = .ok f := by
  obtain ⟨ts, hyields, hform⟩ := h Scanner.initial rfl
  obtain ⟨e, he, hscan⟩ := Token.scan_of_yields hyields
  obtain ⟨us, e', hus, -, hspelled⟩ := Token.spelled_of_scan hscan
  obtain ⟨rfl, -⟩ := List.append_inj' hus rfl
  exact ofText?_eq_ok_iff.2 ⟨ts, e, hscan, he, hspelled, hform⟩

/-- What can be written reads back. -/
theorem ofText?_of_writable {f : Form} (h : f.toNode.Writable) :
    ∃ text, f.toNode.toText? = some text ∧ ofText? text = .ok f := by
  obtain ⟨u, hu, hreads⟩ := reads_node f.toNode h
  refine ⟨String.ofList u, by rw [Node.toText?, hu]; rfl, ofText?_of_reads ?_⟩
  rw [String.toList_ofList]
  refine hreads.mono ?_
  rintro ts (⟨t, -, ht⟩ | ⟨g, hg, hform⟩)
  · cases ht
  · obtain rfl : f = g := by simpa using congrArg Node.form? hg
    exact hform

/-- **Writing and reading are inverse to each other.**  A form is written as a text that reads back
as the same form exactly when it can be written, and whatever is read from a text can be. -/
theorem reads_back_iff_writable :
    (∀ f : Form, (∃ text, f.toNode.toText? = some text ∧ ofText? text = .ok f) ↔
        f.toNode.Writable) ∧
      ∀ (text : String) (f : Form), ofText? text = .ok f → f.toNode.Writable := by
  refine ⟨fun f => ⟨?_, ofText?_of_writable⟩, fun _ _ => writable_of_ofText?⟩
  rintro ⟨text, -, h⟩
  exact writable_of_ofText? h

end Form

theorem Template.writable_of_ofText? {text name : String} {t : Template}
    (h : Template.ofText? text name = .ok t) : t.root.toNode.Writable := by
  unfold ofText? at h
  cases hread : Form.ofText? text with
  | error e => rw [hread] at h; cases h
  | ok form =>
    rw [hread] at h
    cases h
    exact Form.writable_of_ofText? hread

end MarkupForms
