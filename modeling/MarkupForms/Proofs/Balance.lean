import MarkupForms.Proofs.Handling
import MarkupForms.Proofs.RoundTrip

/-!
# The markup of a rendering

A scan of markup goes from left to right.  Outside of tags it knows which tags are open; inside of a
tag it knows how far it has come.  It gets through when every tag is well formed, has a name and
attributes that are known, and closes the innermost tag that is open if it closes one.

With escaping, the markup of a rendering comes from the template alone: the texts of values have
no characters of which tags are made, so whatever the data is, they end up between tags or between
the quotes of a value and the scan gets past them.

* `Markup.scan_append` : a scan of two texts is a scan of the first and then one of the second.
* `Markup.scan_word`, `Markup.scan_attributes`, `Markup.scan_openTag` : scans of what tags are made
  of.
* `Writing.markup` : what is known of texts and of fragments.
* `Renderer.render_isBalanced` : the markup of a rendering is balanced.
-/

namespace MarkupForms

namespace Markup

/-! ## Scanning -/

/-- How far a scan has come in a tag. -/
inductive Place where
  /-- Outside of tags. -/
  | content
  /-- Behind the bracket that opens a tag. -/
  | bracket
  /-- In the name of a tag. -/
  | name (read : List Char)
  /-- Behind the space after a name or a value. -/
  | gap (tag : String)
  /-- In the key of an attribute. -/
  | key (tag : String) (read : List Char)
  /-- Behind the sign between a key and its value. -/
  | sign (tag : String)
  /-- Between the quotes around a value. -/
  | value (tag : String)
  /-- Behind a value. -/
  | quote (tag : String)
  /-- Behind the slash at the end of a tag without a body. -/
  | slash
  /-- In the name of a closing tag. -/
  | closing (read : List Char)
deriving DecidableEq, Repr

/-- What a scan knows: where it stands and which tags are open, innermost first. -/
structure Scan where
  /-- The place in a tag. -/
  place : Place
  /-- The tags that are open. -/
  opened : List String
deriving DecidableEq, Repr

/-- The names of tags and the keys of attributes that may occur. -/
structure Vocabulary where
  /-- The names of tags. -/
  names : List String
  /-- The keys of attributes. -/
  keys : List String

/-- Whether a character ends the name of a tag or the key of an attribute. -/
def isDelimiter (c : Char) : Bool :=
  c ∈ [' ', '<', '>', '/', '=', '"']

/-- Read a character, unless it must not stand here. -/
def Scan.step (v : Vocabulary) : Scan → Char → Option Scan
  | ⟨.content, opened⟩, c =>
      if c = '<' then some ⟨.bracket, opened⟩
      else if c = '>' then none
      else some ⟨.content, opened⟩
  | ⟨.bracket, opened⟩, c =>
      if c = '/' then some ⟨.closing [], opened⟩
      else if isDelimiter c then none
      else some ⟨.name [c], opened⟩
  | ⟨.name read, opened⟩, c =>
      if isDelimiter c then
        let tag := String.ofList read
        if tag ∉ v.names then none
        else if c = ' ' then some ⟨.gap tag, opened⟩
        else if c = '>' then some ⟨.content, tag :: opened⟩
        else none
      else some ⟨.name (read ++ [c]), opened⟩
  | ⟨.gap tag, opened⟩, c =>
      if c = '/' then some ⟨.slash, opened⟩
      else if isDelimiter c then none
      else some ⟨.key tag [c], opened⟩
  | ⟨.key tag read, opened⟩, c =>
      if isDelimiter c then
        if c = '=' ∧ String.ofList read ∈ v.keys then some ⟨.sign tag, opened⟩ else none
      else some ⟨.key tag (read ++ [c]), opened⟩
  | ⟨.sign tag, opened⟩, c =>
      if c = '"' then some ⟨.value tag, opened⟩ else none
  | ⟨.value tag, opened⟩, c =>
      if c = '"' then some ⟨.quote tag, opened⟩
      else if c = '<' ∨ c = '>' then none
      else some ⟨.value tag, opened⟩
  | ⟨.quote tag, opened⟩, c =>
      if c = ' ' then some ⟨.gap tag, opened⟩
      else if c = '>' then some ⟨.content, tag :: opened⟩
      else none
  | ⟨.slash, opened⟩, c =>
      if c = '>' then some ⟨.content, opened⟩ else none
  | ⟨.closing read, opened⟩, c =>
      if isDelimiter c then
        match opened with
        | [] => none
        | tag :: outer =>
            if c = '>' ∧ tag = String.ofList read then some ⟨.content, outer⟩ else none
      else some ⟨.closing (read ++ [c]), opened⟩

/-- Read characters from left to right. -/
def Scan.run (v : Vocabulary) (st : Scan) (s : List Char) : Option Scan :=
  s.foldlM (Scan.step v) st

/-- Whether a scan gets through a text and no tag is left open. -/
def Balanced (v : Vocabulary) (s : String) : Prop :=
  Scan.run v ⟨.content, []⟩ s.toList = some ⟨.content, []⟩

instance (v : Vocabulary) (s : String) : Decidable (Balanced v s) :=
  inferInstanceAs (Decidable (_ = _))

example : Balanced ⟨["p", "br"], ["id"]⟩ "<p id=\"a b\">x &lt; y<br /></p>" := by decide

example : ¬ Balanced ⟨["p", "b"], []⟩ "<p><b></p></b>" := by decide

/-! ## Scans of what tags are made of -/

namespace Scan

variable {v : Vocabulary} {st : Scan} {opened : List String} {tag : String}

theorem run_append (v : Vocabulary) (st : Scan) (s t : List Char) :
    run v st (s ++ t) = (run v st s).bind fun after => run v after t :=
  List.foldlM_append

theorem run_append_of_run {s t : List Char} {after : Scan} (h : run v st s = some after) :
    run v st (s ++ t) = run v after t := by
  rw [run_append, h]
  rfl

theorem run_cons_of_step {c : Char} {s : List Char} {after : Scan} (h : step v st c = some after) :
    run v st (c :: s) = run v after s := by
  rw [run, List.foldlM_cons, h]
  rfl

/-- A place that characters of some kind do not lead away from. -/
theorem run_stays {P : Char → Prop} (hstep : ∀ c, P c → step v st c = some st) {s : List Char}
    (hs : ∀ c ∈ s, P c) : run v st s = some st := by
  induction s with
  | nil => rfl
  | cons c s ih =>
    rw [run_cons_of_step (hstep c (hs c List.mem_cons_self))]
    exact ih fun d hd => hs d (List.mem_cons_of_mem c hd)

/-- The characters of which names and keys are made are collected. -/
theorem run_word (place : List Char → Place)
    (hstep : ∀ read c, isDelimiter c = false →
      step v ⟨place read, opened⟩ c = some ⟨place (read ++ [c]), opened⟩)
    {w : List Char} (hw : ∀ c ∈ w, isDelimiter c = false) (read : List Char) :
    run v ⟨place read, opened⟩ w = some ⟨place (read ++ w), opened⟩ := by
  induction w generalizing read with
  | nil => rw [List.append_nil]; rfl
  | cons c w ih =>
    rw [run_cons_of_step (hstep read c (hw c List.mem_cons_self)),
      ih (fun d hd => hw d (List.mem_cons_of_mem c hd)), List.append_assoc]
    rfl

end Scan

/-- A word that may stand as a name or as a key. -/
def IsName (s : String) : Prop :=
  s ≠ "" ∧ ∀ c ∈ s.toList, isDelimiter c = false

/-- A text without the characters that a value and the text between tags must not have. -/
def IsPlain (s : String) : Prop :=
  ∀ c ∈ s.toList, c ∉ ['<', '>', '"']

theorem IsName.exists_cons {s : String} (h : IsName s) :
    ∃ c w, s.toList = c :: w ∧ isDelimiter c = false ∧ ∀ d ∈ w, isDelimiter d = false := by
  obtain ⟨hne, hword⟩ := h
  cases hs : s.toList with
  | nil => exact absurd (String.toList_eq_nil_iff.1 hs) hne
  | cons c w =>
    rw [hs] at hword
    exact ⟨c, w, rfl, hword c List.mem_cons_self, fun d hd => hword d (List.mem_cons_of_mem c hd)⟩

/-- The places at which a tag may end. -/
def Place.Ends (tag : String) : Place → Prop
  | .name read => read = tag.toList
  | .quote t => t = tag
  | _ => False

namespace Scan

variable {v : Vocabulary} {opened : List String} {tag : String} {place : Place}

/-- Text between tags. -/
theorem run_plain (opened : List String) {s : String} (hs : IsPlain s) :
    run v ⟨.content, opened⟩ s.toList = some ⟨.content, opened⟩ := by
  refine run_stays (P := fun c => c ∉ ['<', '>', '"']) (fun c hc => ?_) hs
  have hc' : c ≠ '<' ∧ c ≠ '>' := by simp_all
  rw [step, if_neg hc'.1, if_neg hc'.2]

theorem run_value (opened : List String) {s : String} (hs : IsPlain s) :
    run v ⟨.value tag, opened⟩ s.toList = some ⟨.value tag, opened⟩ := by
  refine run_stays (P := fun c => c ∉ ['<', '>', '"']) (fun c hc => ?_) hs
  have hc' : c ≠ '"' ∧ ¬ (c = '<' ∨ c = '>') := by simp_all
  rw [step, if_neg hc'.1, if_neg hc'.2]

/-- The name behind the bracket that opens a tag. -/
theorem run_name (opened : List String) {name : String} (h : IsName name) :
    run v ⟨.bracket, opened⟩ name.toList = some ⟨.name name.toList, opened⟩ := by
  obtain ⟨c, w, hname, hc, hw⟩ := h.exists_cons
  have hslash : c ≠ '/' := by
    rintro rfl
    cases hc
  rw [hname, run_cons_of_step (by rw [step, if_neg hslash, hc]; rfl)]
  exact run_word .name (fun read d hd => by rw [step, hd]; rfl) hw [c]

/-- The key of an attribute behind a space. -/
theorem run_key (opened : List String) {key : String} (h : IsName key) :
    run v ⟨.gap tag, opened⟩ key.toList = some ⟨.key tag key.toList, opened⟩ := by
  obtain ⟨c, w, hkey, hc, hw⟩ := h.exists_cons
  have hslash : c ≠ '/' := by
    rintro rfl
    cases hc
  rw [hkey, run_cons_of_step (by rw [step, if_neg hslash, hc]; rfl)]
  exact run_word (.key tag) (fun read d hd => by rw [step, hd]; rfl) hw [c]

theorem step_space (hplace : place.Ends tag) (htag : tag ∈ v.names) :
    step v ⟨place, opened⟩ ' ' = some ⟨.gap tag, opened⟩ := by
  unfold Place.Ends at hplace
  split at hplace
  · subst hplace
    simp [step, isDelimiter, htag]
  · subst hplace
    rfl
  · exact hplace.elim

theorem step_bracket (hplace : place.Ends tag) (htag : tag ∈ v.names) :
    step v ⟨place, opened⟩ '>' = some ⟨.content, tag :: opened⟩ := by
  unfold Place.Ends at hplace
  split at hplace
  · subst hplace
    simp [step, isDelimiter, htag]
  · subst hplace
    rfl
  · exact hplace.elim

/-- An attribute behind a place at which the tag might have ended. -/
theorem run_attribute (opened : List String) (hplace : place.Ends tag) (htag : tag ∈ v.names)
    {key value : String}
    (hkey : IsName key) (hmem : key ∈ v.keys) (hvalue : IsPlain value) :
    run v ⟨place, opened⟩ (' ' :: (key.toList ++ '=' :: '"' :: (value.toList ++ ['"']))) =
      some ⟨.quote tag, opened⟩ := by
  have hsign : step v ⟨.key tag key.toList, opened⟩ '=' = some ⟨.sign tag, opened⟩ := by
    simp [step, isDelimiter, hmem]
  have hquote : step v ⟨.sign tag, opened⟩ '"' = some ⟨.value tag, opened⟩ := rfl
  rw [run_cons_of_step (step_space hplace htag), run_append_of_run (run_key opened hkey),
    run_cons_of_step hsign, run_cons_of_step hquote, run_append_of_run (run_value opened hvalue)]
  rfl

/-- Attributes lead from a place at which the tag may end to another one. -/
theorem run_attributes (opened : List String) (hplace : place.Ends tag) (htag : tag ∈ v.names)
    {pairs : List (String × String)} (hkeys : ∀ p ∈ pairs, IsName p.1 ∧ p.1 ∈ v.keys)
    (hvalues : ∀ p ∈ pairs, IsPlain p.2) :
    ∃ place' : Place, place'.Ends tag ∧
      run v ⟨place, opened⟩ (attributes pairs).toList = some ⟨place', opened⟩ := by
  induction pairs generalizing place with
  | nil => exact ⟨place, hplace, rfl⟩
  | cons p pairs ih =>
    obtain ⟨hword, hmem⟩ := hkeys p List.mem_cons_self
    have hfirst := run_attribute opened hplace htag hword hmem (hvalues p List.mem_cons_self)
    have hquote : (Place.quote tag).Ends tag := rfl
    obtain ⟨place', hends, hrest⟩ := ih hquote
      (fun q hq => hkeys q (List.mem_cons_of_mem p hq))
      fun q hq => hvalues q (List.mem_cons_of_mem p hq)
    have hlist : (attributes (p :: pairs)).toList =
        ' ' :: (p.1.toList ++ '=' :: '"' :: (p.2.toList ++ ['"'])) ++
          (attributes pairs).toList := by
      simp [attributes, String.join_cons]
    refine ⟨place', hends, ?_⟩
    rw [hlist, run_append_of_run hfirst, hrest]

/-- The name and the attributes of a tag. -/
theorem run_head (opened : List String) (hword : IsName tag) (htag : tag ∈ v.names)
    {pairs : List (String × String)} (hkeys : ∀ p ∈ pairs, IsName p.1 ∧ p.1 ∈ v.keys)
    (hvalues : ∀ p ∈ pairs, IsPlain p.2) :
    ∃ place : Place, place.Ends tag ∧
      run v ⟨.content, opened⟩ ('<' :: (tag.toList ++ (attributes pairs).toList)) =
        some ⟨place, opened⟩ := by
  have hname : (Place.name tag.toList).Ends tag := rfl
  obtain ⟨place, hends, hrun⟩ := run_attributes opened hname htag hkeys hvalues
  have hbracket : step v ⟨.content, opened⟩ '<' = some ⟨.bracket, opened⟩ := rfl
  refine ⟨place, hends, ?_⟩
  rw [run_cons_of_step hbracket, run_append_of_run (run_name opened hword), hrun]

theorem run_openTag (opened : List String) (hword : IsName tag) (htag : tag ∈ v.names)
    {pairs : List (String × String)} (hkeys : ∀ p ∈ pairs, IsName p.1 ∧ p.1 ∈ v.keys)
    (hvalues : ∀ p ∈ pairs, IsPlain p.2) :
    run v ⟨.content, opened⟩ (openTag tag pairs).toList = some ⟨.content, tag :: opened⟩ := by
  obtain ⟨place, hends, hrun⟩ := run_head opened hword htag hkeys hvalues
  have hlist : (openTag tag pairs).toList =
      '<' :: (tag.toList ++ (attributes pairs).toList) ++ ['>'] := by
    simp [openTag]
  rw [hlist, run_append_of_run hrun, run_cons_of_step (step_bracket hends htag)]
  rfl

theorem run_voidTag (opened : List String) (hword : IsName tag) (htag : tag ∈ v.names)
    {pairs : List (String × String)} (hkeys : ∀ p ∈ pairs, IsName p.1 ∧ p.1 ∈ v.keys)
    (hvalues : ∀ p ∈ pairs, IsPlain p.2) :
    run v ⟨.content, opened⟩ (voidTag tag pairs).toList = some ⟨.content, opened⟩ := by
  obtain ⟨place, hends, hrun⟩ := run_head opened hword htag hkeys hvalues
  have hlist : (voidTag tag pairs).toList =
      '<' :: (tag.toList ++ (attributes pairs).toList) ++ [' ', '/', '>'] := by
    simp [voidTag]
  rw [hlist, run_append_of_run hrun, run_cons_of_step (step_space hends htag)]
  rfl

/-- A closing tag closes the innermost tag that is open. -/
theorem run_closeTag (opened : List String) (hword : IsName tag) :
    run v ⟨.content, tag :: opened⟩ (closeTag tag).toList = some ⟨.content, opened⟩ := by
  have hlist : (closeTag tag).toList = '<' :: '/' :: (tag.toList ++ ['>']) := by
    simp [closeTag]
  have hname : run v ⟨.closing [], tag :: opened⟩ tag.toList =
      some ⟨.closing tag.toList, tag :: opened⟩ :=
    run_word .closing (fun read d hd => by rw [step, hd]; rfl) hword.2 []
  have hbracket : step v ⟨.content, tag :: opened⟩ '<' = some ⟨.bracket, tag :: opened⟩ := rfl
  have hslash : step v ⟨.bracket, tag :: opened⟩ '/' = some ⟨.closing [], tag :: opened⟩ := rfl
  have hend : step v ⟨.closing tag.toList, tag :: opened⟩ '>' = some ⟨.content, opened⟩ := by
    simp [step, isDelimiter]
  rw [hlist, run_cons_of_step hbracket, run_cons_of_step hslash, run_append_of_run hname,
    run_cons_of_step hend]
  rfl

end Scan

end Markup

open Markup

/-! ## Texts and fragments -/

/-- Texts are plain, and a scan of fragments comes back to where it was. -/
def Writing.markup (v : Vocabulary) : Writing where
  Text := IsPlain
  Fragments fs := ∀ opened,
    Scan.run v ⟨.content, opened⟩ (String.join fs).toList = some ⟨.content, opened⟩
  empty c hc := absurd hc List.not_mem_nil
  join {s t} hs ht c hc := by
    rw [String.toList_append] at hc
    exact (List.mem_append.1 hc).elim (hs c) (ht c)
  nil _ := rfl
  append {a b} ha hb opened := by
    rw [String.toList_join, List.flatMap_append, ← String.toList_join, ← String.toList_join,
      Scan.run_append_of_run (ha opened)]
    exact hb opened
  single {s} hs opened := by
    rw [String.toList_join, List.flatMap_singleton]
    exact Scan.run_plain opened hs

theorem Writing.frames_markup {v : Vocabulary} {tag : String} {keys : List String}
    (hname : IsName tag) (htag : tag ∈ v.names) (hkeys : ∀ key ∈ keys, IsName key ∧ key ∈ v.keys) :
    (Writing.markup v).Frames tag keys where
  void pairs hpairs hvalues opened := by
    rw [String.toList_join, List.flatMap_singleton]
    refine Scan.run_voidTag opened hname htag (fun p hp => hkeys _ ?_) hvalues
    exact hpairs ▸ List.mem_map_of_mem hp
  body pairs content hpairs hvalues hcontent opened := by
    have hopen := Scan.run_openTag (v := v) opened hname htag
      (fun p hp => hkeys _ (hpairs ▸ List.mem_map_of_mem hp)) hvalues
    have hlist : (String.join (openTag tag pairs :: content ++ [closeTag tag])).toList =
        (openTag tag pairs).toList ++ ((String.join content).toList ++ (closeTag tag).toList) := by
      simp [String.toList_join]
    rw [hlist, Scan.run_append_of_run hopen, Scan.run_append_of_run (hcontent (tag :: opened))]
    exact Scan.run_closeTag opened hname

theorem isPlain_truthText (b : Bool) : IsPlain (Predicate.truthText b) := by
  cases b <;> simp [IsPlain, Predicate.truthText]

theorem isPlain_escape (s : String) : IsPlain (Text.escape s) := by
  intro c hc hmem
  rw [Text.escape, String.toList_ofList] at hc
  refine Text.not_mem_escapeChars ?_ s.toList hc
  simp only [List.mem_cons, List.not_mem_nil, or_false] at hmem ⊢
  tauto

/-! ## Trees that are read from a text -/

namespace Node

/-- The names of the tags of a tree. -/
def tagNames (n : Node) : List String :=
  n.subtrees.filterMap fun
    | .tag name _ _ => some name
    | _ => none

/-- The keys of the attributes of a tree. -/
def attributeKeys (n : Node) : List String :=
  n.subtrees.flatMap fun
    | .tag _ attributes _ => Attributes.keys (attributes.getD [])
    | _ => []

/-- The texts of a tree, as they were written. -/
def literals (n : Node) : List String :=
  n.subtrees.filterMap fun
    | .text s => some s
    | _ => none

theorem allWritable_iff {ns : List Node} : AllWritable ns ↔ ∀ n ∈ ns, n.Writable := by
  induction ns with
  | nil => simp [AllWritable]
  | cons n ns ih => simp [AllWritable, ih]

theorem entriesWritable_iff {es : List (String × Node)} :
    EntriesWritable es ↔ ∀ e ∈ es, IsAtom e.1.toList ∧ e.2.IsLeaf ∧ e.2.Writable := by
  induction es with
  | nil => simp [EntriesWritable]
  | cons e es ih =>
    obtain ⟨key, n⟩ := e
    simp [EntriesWritable, ih, and_assoc]

/-- What is known of a tag that can be written. -/
theorem Writable.parts {name : String} {attributes : Option Attributes} {children : List Node}
    (h : (Node.tag name attributes children).Writable) :
    IsAtom name.toList ∧
      (∀ e ∈ attributes.getD [], IsAtom e.1.toList ∧ e.2.IsLeaf ∧ e.2.Writable) ∧
        ∀ n ∈ children, n.Writable := by
  cases attributes with
  | none =>
    rw [Writable] at h
    exact ⟨h.1, fun e he => absurd he List.not_mem_nil, allWritable_iff.1 h.2⟩
  | some attributes =>
    rw [Writable] at h
    exact ⟨h.1, entriesWritable_iff.1 h.2.2.1, allWritable_iff.1 h.2.2.2⟩

mutual

/-- All nodes of a tree that can be written can be written. -/
theorem every_writable (n : Node) (h : n.Writable) : n.Every Writable := by
  match n with
  | .text _ | .var _ | .hole =>
    intro m hm
    obtain rfl : m = _ := by simpa [subtrees] using hm
    exact h
  | .tag name none children =>
    intro m hm
    rcases mem_subtrees_tag.1 hm with rfl | ⟨e, he, -⟩ | ⟨n, hn, hmem⟩
    · exact h
    · cases he
    · exact every_writableAll children h.parts.2.2 n hn m hmem
  | .tag name (some attributes) children =>
    intro m hm
    rcases mem_subtrees_tag.1 hm with rfl | ⟨e, he, hmem⟩ | ⟨n, hn, hmem⟩
    · exact h
    · exact every_writableEntries attributes (fun e he => (h.parts.2.1 e he).2.2) e he m hmem
    · exact every_writableAll children h.parts.2.2 n hn m hmem

/-- All nodes of trees that can be written can be written. -/
theorem every_writableAll (ns : List Node) (h : ∀ n ∈ ns, n.Writable) :
    ∀ n ∈ ns, n.Every Writable := by
  match ns with
  | [] => exact fun n hn => absurd hn List.not_mem_nil
  | n :: ns =>
    intro m hm
    rcases List.mem_cons.1 hm with hfirst | hm
    · rw [hfirst]
      exact every_writable n (h n List.mem_cons_self)
    · exact every_writableAll ns (fun n' hn' => h n' (List.mem_cons_of_mem n hn')) m hm

/-- All nodes of attributes that can be written can be written. -/
theorem every_writableEntries (es : List (String × Node)) (h : ∀ e ∈ es, e.2.Writable) :
    ∀ e ∈ es, e.2.Every Writable := by
  match es with
  | [] => exact fun e he => absurd he List.not_mem_nil
  | (key, n) :: rest =>
    intro e he
    rcases List.mem_cons.1 he with rfl | he
    · exact every_writable n (h _ List.mem_cons_self)
    · exact every_writableEntries rest (fun e' he' => h e' (List.mem_cons_of_mem _ he')) e he

end

end Node

/-! ## Renderings -/

/-- Whether the names and the keys of a tree have none of the characters of which tags are made, and
its texts none of those that end a text or a value. -/
structure Node.IsClean (n : Node) : Prop where
  /-- Names and keys. -/
  words : ∀ s ∈ n.tagNames ++ n.attributeKeys,
    ∀ c ∈ s.toList, c ∉ ['<', '>', '/', '=', '&', '"', '\'']
  /-- Texts. -/
  texts : ∀ s ∈ n.literals, ∀ c ∈ s.toList, c ∉ ['<', '>', '"']

/-- The names and the keys of a tree. -/
def Node.vocabulary (n : Node) : Vocabulary :=
  ⟨n.tagNames, n.attributeKeys⟩

theorem isName_of_isAtom {s : String} (h : IsAtom s.toList)
    (hs : ∀ c ∈ s.toList, c ∉ ['<', '>', '/', '=', '&', '"', '\'']) : IsName s := by
  obtain ⟨⟨hne, hword⟩, -, -⟩ := h
  refine ⟨fun hs => hne (by rw [hs]; rfl), fun c hc => ?_⟩
  have hspace : c ≠ ' ' := by
    rintro rfl
    cases hword ' ' hc
  have hclean := hs c hc
  simp_all [Markup.isDelimiter]

namespace Node

variable {L : Eval.Logic} {n : Node}

theorem every_allowed_markup (hL : ∀ name, L.Reads name) (hwritable : n.Writable)
    (hclean : n.IsClean) : n.Every (Node.Allowed L (.markup n.vocabulary)) := by
  intro m hm
  have hm' := every_writable n hwritable m hm
  cases m with
  | text s =>
    have hs : s ∈ n.literals := List.mem_filterMap.2 ⟨_, hm, rfl⟩
    refine ⟨fun c hc d hd => ?_, fun path _ => hL _⟩
    rw [String.toList_ofList, List.mem_singleton] at hd
    exact hd ▸ hclean.texts s hs c hc
  | var name => exact hL name
  | hole => trivial
  | tag name attributes children =>
    obtain ⟨hname, hentries, -⟩ := hm'.parts
    have hnames : name ∈ n.tagNames := List.mem_filterMap.2 ⟨_, hm, rfl⟩
    have hkeys : ∀ key ∈ Attributes.keys (attributes.getD []), key ∈ n.attributeKeys :=
      fun key hkey => List.mem_flatMap.2 ⟨_, hm, hkey⟩
    refine ⟨Writing.frames_markup ?_ hnames fun key hkey => ⟨?_, hkeys key hkey⟩, ?_⟩
    · exact isName_of_isAtom hname (hclean.words name (List.mem_append_left _ hnames))
    · obtain ⟨e, he, rfl⟩ := List.mem_map.1 hkey
      exact isName_of_isAtom (hentries e he).1
        (hclean.words _ (List.mem_append_right _ (hkeys _ hkey)))
    · exact fun e he => .inl (hentries e he).2.1

end Node

namespace Renderer

open Eval Eval.Logic

variable {r : Renderer}

/-- A scan of what a tree is rendered as comes back to where it was. -/
theorem holds_evaluate_markup (hr : r.IsStandard) (hescape : r.config.autoescape = true)
    {n : Node} (hwritable : n.Writable) (hclean : n.IsClean) (room : Nat) :
    Context.Permission.ownFrame.outside.Holds (Writing.markup n.vocabulary).Fragments
      ((r.handle room).meaning n).evaluate := by
  have hout (s : String) : IsPlain (r.output s) := by
    rw [output, if_pos hescape]
    exact isPlain_escape s
  have hallowed :=
    Node.every_allowed_markup (Context.Permission.reads (p := .ownFrame)) hwritable hclean
  exact (obeys_handle_of_standard hr hout isPlain_truthText room n hallowed).evaluate

/-- **Balance.**  With escaping, without anything in front of a page and without handlers but the
predicates of the library, whatever a template that was read from a text is rendered as is balanced,
in every context: its tags are well formed, with names and keys of the template and values that end
where they should, each closing tag closes the innermost tag that is open, and none is left open.
All that is asked of the template is that its names, keys and texts have none of the characters that
tags are made of. -/
theorem render_isBalanced (hr : r.IsStandard) (hescape : r.config.autoescape = true)
    (hdoctype : r.config.doctype.getD "" = "") {text name : String} {t : Template}
    (ht : Template.ofText? text name = .ok t) (hclean : t.root.toNode.IsClean) (c : Context)
    {s : String} (hs : ((r.render t).run c).1 = .ok s) :
    Balanced t.root.toNode.vocabulary s := by
  have hwritable : t.root.toNode.Writable := Template.writable_of_ofText? ht
  obtain ⟨room, hroom⟩ := Nat.exists_eq_succ_of_ne_zero (Nat.ne_of_gt r.config.limit_pos)
  have hevaluate := holds_evaluate_markup hr hescape hwritable hclean room
  have hpreamble : r.preamble t.root = "" := by
    unfold preamble
    split
    · exact hdoctype
    · rfl
  have hrender : Context.Permission.ownFrame.outside.Holds
      (fun s => Balanced t.root.toNode.vocabulary s) (r.render t) := by
    rw [render, renderForm, top, hroom, handle_render_succ, hpreamble]
    refine Logic.bind _ (P := fun s => Balanced t.root.toNode.vocabulary s) ?_ fun text htext => ?_
    · exact Logic.bind _ hevaluate fun fs hfs => Logic.pure _ (hfs [])
    · rw [String.empty_append]
      exact Logic.pure _ htext
  exact (hrender c).2 s hs

/-- The predicates of the library, with escaping and nothing in front of a page. -/
def guardedLibrary : Renderer :=
  { library with config := { Config.standard with doctype := none, autoescape := true } }

/-- The template `(p (@ (id $x)) "a $x" (br))`. -/
def paragraph : Template where
  root := ⟨"p", some [("id", .var "x")], [.text "a $x", .tag "br" none []]⟩
  name := ""

theorem isClean_paragraph : paragraph.root.toNode.IsClean := by
  have hwords : paragraph.root.toNode.tagNames ++ paragraph.root.toNode.attributeKeys =
      ["p", "br", "id"] := rfl
  have htexts : paragraph.root.toNode.literals = ["a $x"] := rfl
  constructor
  · rw [hwords]
    simp
  · rw [htexts]
    simp

/-- A value that looks like the end of an attribute and the start of a tag stays a value. -/
theorem paragraph_isBalanced :
    Template.ofText? "(p (@ (id $x)) \"a $x\" (br))" "" = .ok paragraph ∧
      paragraph.root.toNode.IsClean ∧
      ((guardedLibrary.render paragraph).run (.ofList [("x", .scalar "\"><b>")])).1 =
        .ok "<p id=\"&quot;&gt;&lt;b&gt;\">a &quot;&gt;&lt;b&gt;<br /></p>" ∧
      Balanced ⟨["p", "br"], ["id"]⟩
        "<p id=\"&quot;&gt;&lt;b&gt;\">a &quot;&gt;&lt;b&gt;<br /></p>" := by
  have hread : Template.ofText? "(p (@ (id $x)) \"a $x\" (br))" "" = .ok paragraph := rfl
  have hrender : ((guardedLibrary.render paragraph).run (.ofList [("x", .scalar "\"><b>")])).1 =
      .ok "<p id=\"&quot;&gt;&lt;b&gt;\">a &quot;&gt;&lt;b&gt;<br /></p>" := rfl
  have hstandard : guardedLibrary.IsStandard := isStandard_library
  exact ⟨hread, isClean_paragraph, hrender,
    render_isBalanced hstandard rfl rfl hread isClean_paragraph _ hrender⟩

end Renderer

end MarkupForms
