import MarkupForms.Proofs.Conversions

/-!
# Which data is a configuration

A configuration is read from a map whose keys are all known.  What is checked is, in this order, the
keys, the tags without a body, the limit, the text in front of a page and the choice to escape; the
first check that fails decides the error.  All errors are errors of the configuration but two:
unknown keys are put in order for their message, and keys of different types have no order; and what
a message should show may have an integer with too many digits, which has no text.

* `Key.exists_sort?_eq_ok_iff` : keys can be put in order when any two of them can be.
* `Config.ofData_eq_ok_iff` : the configuration that a map says.
* `Config.ofData_eq_error_iff` : the first check that fails.
* `Config.exists_says_iff` : which maps say a configuration.
* `Config.configuration_exact` : all of this together.
-/

namespace MarkupForms

/-- The name of the type of the error for settings that are refused. -/
def ConfigError.typeName : ConfigError → String
  | .noMapping _ | .unknownKeys _ | .noTagList | .limitType _ | .limitRange _ | .doctypeType _
  | .autoescapeType _ => "ConfigError"
  | .unknownArgument _ | .argumentName | .unordered _ _ | .notIterable _ | .unhashable _ =>
      "TypeError"
  | .longInteger => "ValueError"

/-- An error of the configuration that its message shows something for is one, unless that cannot be
shown. -/
theorem ConfigError.typeName_showing {α : Type} {shown : Option α} {e : α → ConfigError}
    (he : ∀ a, (e a).typeName = "ConfigError") :
    (showing shown e).typeName = "ConfigError" ∨ showing shown e = .longInteger ∧ shown = none := by
  cases shown with
  | none => exact .inr ⟨rfl, rfl⟩
  | some a => exact .inl (he a)

theorem ConfigError.showing_eq_iff {α : Type} {shown : Option α} {e : α → ConfigError}
    {e' : ConfigError} :
    showing shown e = e' ↔ shown = none ∧ e' = .longInteger ∨ ∃ a, shown = some a ∧ e a = e' := by
  cases shown <;> simp [showing, eq_comm]

/-! ## Texts as keys -/

namespace Key

/-- A text is the same key as itself only. -/
theorem same_text_iff {k : Key} {s : String} : k.same (.text s) = true ↔ k = .text s := by
  cases k with
  | text t => simp [same_text]
  | _ => simp [same, magnitude?]

theorem isIn_map_text_iff {k : Key} {names : List String} :
    k.isIn (names.map .text) = true ↔ ∃ name ∈ names, k = .text name := by
  rw [isIn, List.any_map, List.any_eq_true]
  exact exists_congr fun name => and_congr_right fun _ => same_text_iff

/-! ## Keys in order -/

/-- The kinds of scalars that have an order, each of them apart from the others. -/
inductive Kind where
  /-- Texts. -/
  | text
  /-- Numbers, truth values among them. -/
  | number
  /-- Days, or moments. -/
  | timestamp (hasTime : Bool)
  /-- Texts in bytes. -/
  | bytes
deriving DecidableEq, Repr

/-- The kind of a scalar, if scalars like it have an order. -/
def kind? : Key → Option Kind
  | .text _ => some .text
  | .int _ | .float _ | .truth _ => some .number
  | .timestamp t => some (.timestamp t.time.isSome)
  | .bytes _ => some .bytes
  | .null | .ready _ | .context _ | .object | .tuple _ => none

/-- Whether a key is no list. -/
def isScalar : Key → Bool
  | .tuple _ => false
  | _ => true

/-- Whether two scalars can be put in order. -/
def Comparable (k l : Key) : Prop :=
  k.kind?.isSome ∧ k.kind? = l.kind?

theorem Comparable.symm {k l : Key} (h : k.Comparable l) : l.Comparable k :=
  ⟨h.2 ▸ h.1, h.2.symm⟩

theorem Comparable.trans {k l m : Key} (h : k.Comparable l) (h' : l.Comparable m) :
    k.Comparable m :=
  ⟨h.1, h.2.trans h'.2⟩

/-- Two scalars can be put in order exactly when they are of one kind. -/
theorem exists_less?_eq_ok_iff {k l : Key} (hk : k.isScalar = true) (hl : l.isScalar = true) :
    (∃ b, k.less? l = .ok b) ↔ k.Comparable l := by
  cases k with
  | tuple => cases hk
  | timestamp t =>
    cases l with
    | timestamp u =>
      rw [less?, Comparable, kind?, kind?]
      by_cases h : t.time.isSome = u.time.isSome <;> simp [h]
    | _ => simp [less?, Comparable, kind?, isNumber]
  | text | bytes | int | float | truth | null | ready | context | object =>
    cases l with
    | tuple => cases hl
    | _ => simp [less?, Comparable, kind?, isNumber]

/-- A key is put among others of one kind exactly when it is of this kind. -/
theorem exists_insert?_eq_ok_iff {k : Key} {ls : List Key} (hk : k.isScalar = true)
    (hls : ∀ l ∈ ls, l.isScalar = true) (hkind : ls.Pairwise Comparable) :
    (∃ ms, k.insert? ls = .ok ms) ↔ ∀ l ∈ ls, k.Comparable l := by
  induction ls with
  | nil => simp [insert?]
  | cons l ls ih =>
    obtain ⟨hl, hls⟩ := List.forall_mem_cons.1 hls
    obtain ⟨hfirst, hkind⟩ := List.pairwise_cons.1 hkind
    rw [List.forall_mem_cons, insert?]
    constructor
    · rintro ⟨ms, hms⟩
      obtain ⟨b, hb, -⟩ := Data.bind_eq_ok_iff.1 hms
      -- Only the first key needs to be compared with it; the others are of the same kind.
      have hcomparable := (exists_less?_eq_ok_iff hk hl).1 ⟨b, hb⟩
      exact ⟨hcomparable, fun m hm => hcomparable.trans (hfirst m hm)⟩
    · rintro ⟨hcomparable, hrest⟩
      obtain ⟨b, hb⟩ := (exists_less?_eq_ok_iff hk hl).2 hcomparable
      obtain ⟨ms, hms⟩ := (ih hls hkind).2 hrest
      rw [hb, hms]
      cases b with
      | true => exact ⟨_, rfl⟩
      | false => exact ⟨_, rfl⟩

theorem perm_of_insert? {k : Key} {ls ms : List Key} (h : k.insert? ls = .ok ms) :
    ms.Perm (k :: ls) := by
  induction ls generalizing ms with
  | nil =>
    cases h
    exact .refl _
  | cons l ls ih =>
    obtain ⟨b, -, h⟩ := Data.bind_eq_ok_iff.1 h
    cases b with
    | true =>
      cases h
      exact .refl _
    | false =>
      obtain ⟨rest, hrest, hmade⟩ := Data.bind_eq_ok_iff.1 h
      cases hmade
      exact ((ih hrest).cons l).trans (.swap k l ls)

theorem exists_foldlM_insert?_eq_ok_iff {ks sorted : List Key} (h : ∀ k ∈ ks, k.isScalar = true)
    (hsorted : ∀ k ∈ sorted, k.isScalar = true) (hkind : sorted.Pairwise Comparable) :
    (∃ ls, ks.foldlM (fun sorted k => k.insert? sorted) sorted = .ok ls) ↔
      (sorted ++ ks).Pairwise Comparable := by
  induction ks generalizing sorted with
  | nil => simp [hkind, pure, Except.pure]
  | cons k ks ih =>
    obtain ⟨hk, hks⟩ := List.forall_mem_cons.1 h
    have hinsert := exists_insert?_eq_ok_iff hk hsorted hkind
    have hsymm : ∀ {a b : Key}, a.Comparable b → b.Comparable a := fun h => h.symm
    rw [List.foldlM_cons, List.append_cons]
    cases hmade : k.insert? sorted with
    | error clash =>
      rw [hmade] at hinsert
      refine iff_of_false (by simp [bind, Except.bind]) fun hall => ?_
      obtain ⟨ms, hms⟩ := hinsert.2 fun l hl =>
        ((List.pairwise_append.1 (List.pairwise_append.1 hall).1).2.2 l hl k (by simp)).symm
      cases hms
    | ok ms =>
      have hperm := perm_of_insert? hmade
      have hms : ms.Pairwise Comparable := by
        rw [hperm.pairwise_iff hsymm, List.pairwise_cons]
        exact ⟨hinsert.1 ⟨ms, hmade⟩, hkind⟩
      have hscalar : ∀ l ∈ ms, l.isScalar = true := fun l hl => by
        rcases List.mem_cons.1 (hperm.mem_iff.1 hl) with rfl | hl
        · exact hk
        · exact hsorted l hl
      refine (ih hks hscalar hms).trans (List.Perm.pairwise_iff hsymm (.append_right ks ?_))
      exact hperm.trans (List.perm_append_singleton k sorted).symm

/-- Scalars can be put in order when any two of them can be. -/
theorem exists_sort?_eq_ok_iff {ks : List Key} (h : ∀ k ∈ ks, k.isScalar = true) :
    (∃ ls, sort? ks = .ok ls) ↔ ks.Pairwise Comparable :=
  exists_foldlM_insert?_eq_ok_iff h (by simp) .nil

/-- Keys that are put in order are the same keys. -/
theorem perm_of_sort? {ks ls : List Key} (h : sort? ks = .ok ls) : ls.Perm ks := by
  have hfold {sorted : List Key}
      (h : ks.foldlM (fun sorted k => k.insert? sorted) sorted = .ok ls) :
      ls.Perm (sorted ++ ks) := by
    clear * - h
    induction ks generalizing sorted with
    | nil =>
      cases h
      rw [List.append_nil]
    | cons k ks ih =>
      rw [List.foldlM_cons] at h
      obtain ⟨ms, hms, h⟩ := Data.bind_eq_ok_iff.1 h
      have hperm := (perm_of_insert? hms).trans (List.perm_append_singleton k sorted).symm
      rw [List.append_cons]
      exact (ih h).trans (hperm.append_right ks)
  exact hfold h

end Key

/-! ## What a map says -/

namespace Config

/-- Whether data is a text in front of a page, or nothing. -/
def IsDoctype (d : Data) : Prop :=
  d = .null ∨ ∃ s, d = .text s

/-- Whether data is a limit. -/
def IsLimit (d : Data) : Prop :=
  ∃ n : Int, d = .int n ∧ 1 ≤ n

/-- Whether data is a choice. -/
def IsChoice (d : Data) : Prop :=
  ∃ b, d = .truth b

/-- Whether data is a list of texts. -/
def IsTags (d : Data) : Prop :=
  ∃ tags : List String, d = .list (tags.map .text) ∨ d = .tuple (tags.map .text)

/-- Whether all keys of a map are known, and what stands under them is of the right type and in
range. -/
structure Admits (pairs : Pairs) : Prop where
  /-- Every key is one of the four. -/
  known : ∀ p ∈ pairs, ∃ name ∈ ["doctype", "recursion_limit", "void_elements", "autoescape"],
    p.1 = .text name
  /-- The text in front of a page is a text or nothing. -/
  doctype : ∀ d ∈ Data.get? pairs "doctype", IsDoctype d
  /-- The limit is a positive integer; a truth value is none. -/
  limit : ∀ d ∈ Data.get? pairs "recursion_limit", IsLimit d
  /-- The tags without a body are a list of texts. -/
  voidElements : ∀ d ∈ Data.get? pairs "void_elements", IsTags d
  /-- The choice to escape is a truth value. -/
  autoescape : ∀ d ∈ Data.get? pairs "autoescape", IsChoice d

/-- The text in front of a page that a setting says. -/
inductive SaysDoctype : Option Data → Option String → Prop where
  /-- The standard one. -/
  | absent : SaysDoctype none (some "<!doctype html5>")
  /-- Nothing. -/
  | null : SaysDoctype (some .null) none
  /-- A text. -/
  | text (s : String) : SaysDoctype (some (.text s)) (some s)

/-- The limit that a setting says. -/
inductive SaysLimit : Option Data → Nat → Prop where
  /-- The standard one. -/
  | absent : SaysLimit none 64
  /-- A positive integer. -/
  | int {n : Nat} (h : 1 ≤ n) : SaysLimit (some (.int n)) n

/-- The choice that a setting says. -/
inductive SaysChoice : Option Data → Bool → Prop where
  /-- Nothing is escaped. -/
  | absent : SaysChoice none false
  /-- A truth value. -/
  | truth (b : Bool) : SaysChoice (some (.truth b)) b

/-- The tags that a setting says. -/
inductive SaysTags : Option Data → List Key → Prop where
  /-- The standard ones. -/
  | absent : SaysTags none (standardVoidElements.map .text)
  /-- Those of a list. -/
  | list (tags : List String) :
      SaysTags (some (.list (tags.map .text))) (Key.distinct (tags.map .text))
  /-- Those of a list of fixed length. -/
  | tuple (tags : List String) :
      SaysTags (some (.tuple (tags.map .text))) (Key.distinct (tags.map .text))

/-- Whether a map says a configuration. -/
structure Says (pairs : Pairs) (c : Config) : Prop where
  /-- All keys are known. -/
  known : unknownKeys pairs = []
  /-- The text in front of a page. -/
  doctype : SaysDoctype (Data.get? pairs "doctype") c.doctype
  /-- The limit. -/
  limit : SaysLimit (Data.get? pairs "recursion_limit") c.limit
  /-- The tags without a body. -/
  voidElements : SaysTags (Data.get? pairs "void_elements") c.voidElements
  /-- The choice to escape. -/
  autoescape : SaysChoice (Data.get? pairs "autoescape") c.autoescape

/-- Why a map is refused.  Each check is made when those before it have passed.  Where the message
shows something that cannot be shown, that is the error. -/
inductive Refuses (pairs : Pairs) : ConfigError → Prop where
  /-- Two unknown keys have no order. -/
  | unordered {k l : Key} (h : Key.sort? (unknownKeys pairs) = .error (k, l)) :
      Refuses pairs (.unordered k l)
  /-- There are unknown keys, which are listed in order. -/
  | unknownKeys {ks : List Key} (hne : unknownKeys pairs ≠ [])
      (h : Key.sort? (unknownKeys pairs) = .ok ks) :
      Refuses pairs (.showing (ks.mapM Key.toText?) .unknownKeys)
  /-- The tags without a body are no list of texts. -/
  | noTagList {d : Data} (hknown : unknownKeys pairs = [])
      (hd : d ∈ Data.get? pairs "void_elements") (h : ¬ IsTags d) : Refuses pairs .noTagList
  /-- The limit is no integer. -/
  | limitType {d : Data} (hknown : unknownKeys pairs = [])
      (htags : ∀ d ∈ Data.get? pairs "void_elements", IsTags d)
      (hd : d ∈ Data.get? pairs "recursion_limit") (h : ∀ n, d ≠ .int n) :
      Refuses pairs (.showing d.display? .limitType)
  /-- The limit is not positive. -/
  | limitRange {n : Int} (hknown : unknownKeys pairs = [])
      (htags : ∀ d ∈ Data.get? pairs "void_elements", IsTags d)
      (hd : .int n ∈ Data.get? pairs "recursion_limit") (h : n < 1) :
      Refuses pairs (.showing (Text.writeInteger? n) fun _ => .limitRange n)
  /-- The text in front of a page is neither a text nor nothing. -/
  | doctypeType {d : Data} (hknown : unknownKeys pairs = [])
      (htags : ∀ d ∈ Data.get? pairs "void_elements", IsTags d)
      (hlimit : ∀ d ∈ Data.get? pairs "recursion_limit", IsLimit d)
      (hd : d ∈ Data.get? pairs "doctype") (h : ¬ IsDoctype d) :
      Refuses pairs (.doctypeType d.typeName)
  /-- The choice to escape is no truth value. -/
  | autoescapeType {d : Data} (hknown : unknownKeys pairs = [])
      (htags : ∀ d ∈ Data.get? pairs "void_elements", IsTags d)
      (hlimit : ∀ d ∈ Data.get? pairs "recursion_limit", IsLimit d)
      (hdoctype : ∀ d ∈ Data.get? pairs "doctype", IsDoctype d)
      (hd : d ∈ Data.get? pairs "autoescape") (h : ¬ IsChoice d) :
      Refuses pairs (.showing d.display? .autoescapeType)

variable {pairs : Pairs} {c : Config} {e : ConfigError} {o : Option Data}

theorem SaysLimit.pos {n : Nat} (h : SaysLimit o n) : 0 < n := by
  cases h with
  | absent => decide
  | int h => exact h

/-! ## One setting -/

/-- What is read of a setting is there exactly when the setting is not refused. -/
theorem exists_iff_of_read {α : Type} {read : Except ConfigError α} {S : α → Prop}
    {P : Data → Prop} (hok : ∀ v, read = .ok v ↔ S v)
    (herror : (∃ e, read = .error e) ↔ ∃ d ∈ o, ¬ P d) : (∃ v, S v) ↔ ∀ d ∈ o, P d := by
  rw [← not_iff_not, ← exists_congr hok]
  push Not
  rw [← herror]
  cases read <;> simp

theorem readDoctype_eq_ok_iff {v : Option String} :
    readDoctype o = .ok v ↔ SaysDoctype o v := by
  constructor
  · intro h
    unfold readDoctype at h
    split at h <;> cases h <;> constructor
  · rintro ⟨⟩ <;> rfl

theorem readDoctype_eq_error_iff :
    readDoctype o = .error e ↔ ∃ d ∈ o, ¬ IsDoctype d ∧ e = .doctypeType d.typeName := by
  rcases o with _ | d
  · simp [readDoctype]
  · cases d <;> simp [readDoctype, IsDoctype, eq_comm]

theorem exists_saysDoctype_iff : (∃ v, SaysDoctype o v) ↔ ∀ d ∈ o, IsDoctype d :=
  exists_iff_of_read (fun _ => readDoctype_eq_ok_iff) (by simp [readDoctype_eq_error_iff])

theorem readAutoescape_eq_ok_iff {v : Bool} : readAutoescape o = .ok v ↔ SaysChoice o v := by
  constructor
  · intro h
    unfold readAutoescape at h
    split at h <;> cases h <;> constructor
  · rintro ⟨⟩ <;> rfl

theorem readAutoescape_eq_error_iff :
    readAutoescape o = .error e ↔
      ∃ d ∈ o, ¬ IsChoice d ∧ e = .showing d.display? .autoescapeType := by
  rcases o with _ | d
  · simp [readAutoescape]
  · cases d <;> simp [readAutoescape, IsChoice, eq_comm]

theorem exists_saysChoice_iff : (∃ v, SaysChoice o v) ↔ ∀ d ∈ o, IsChoice d :=
  exists_iff_of_read (fun _ => readAutoescape_eq_ok_iff) (by simp [readAutoescape_eq_error_iff])

theorem readLimit_eq_ok_iff {l : { n : Nat // 0 < n }} :
    readLimit o = .ok l ↔ SaysLimit o l.1 := by
  obtain ⟨n, hn⟩ := l
  constructor
  · intro h
    unfold readLimit at h
    split at h
    · cases h
      exact .absent
    · rename_i m
      split at h
      · rename_i hpos
        cases h
        obtain ⟨k, rfl⟩ := Int.eq_ofNat_of_zero_le (show 0 ≤ m by omega)
        exact .int hpos
      · cases h
    · cases h
  · rintro ⟨⟩
    · rfl
    · simp [readLimit, hn]

theorem readLimit_eq_error_iff :
    readLimit o = .error e ↔ ∃ d ∈ o,
      (∀ n, d ≠ .int n) ∧ e = .showing d.display? .limitType ∨
        ∃ n : Int, d = .int n ∧ n < 1 ∧
          e = .showing (Text.writeInteger? n) fun _ => .limitRange n := by
  rcases o with _ | d
  · simp [readLimit]
  · cases d with
    | int n =>
      by_cases hn : 0 < n
      · have hrange : ¬ n < 1 := by omega
        simp [readLimit, hn, hrange]
      · have hrange : n < 1 := by omega
        simp [readLimit, hn, hrange, eq_comm]
    | _ => simp [readLimit, eq_comm]

theorem exists_saysLimit_iff : (∃ n, SaysLimit o n) ↔ ∀ d ∈ o, IsLimit d := by
  constructor
  · rintro ⟨_, hn⟩ d hd
    cases hn with
    | absent => cases hd
    | int h => exact ⟨_, (Option.some.inj hd).symm, by omega⟩
  · intro h
    cases o with
    | none => exact ⟨_, .absent⟩
    | some d =>
      obtain ⟨n, rfl, hn⟩ := h d rfl
      obtain ⟨m, rfl⟩ := Int.eq_ofNat_of_zero_le (Int.le_of_lt hn)
      exact ⟨m, .int (by omega)⟩

theorem isTagList_list_iff {items : List Data} :
    isTagList (.list items) = true ↔ ∃ tags : List String, items = tags.map .text := by
  induction items with
  | nil => simp [isTagList]
  | cons d items ih =>
    have hcons : isTagList (.list (d :: items)) =
        (isTagList (.list [d]) && isTagList (.list items)) := by
      simp [isTagList]
    rw [hcons, Bool.and_eq_true, ih]
    constructor
    · rintro ⟨hd, tags, rfl⟩
      cases d with
      | text s => exact ⟨s :: tags, rfl⟩
      | _ => cases hd
    · rintro ⟨_ | ⟨s, tags⟩, heq⟩
      · cases heq
      · cases heq
        exact ⟨rfl, tags, rfl⟩

theorem isTagList_iff {d : Data} : isTagList d = true ↔ IsTags d := by
  cases d with
  | list items | tuple items =>
    refine isTagList_list_iff.trans ?_
    simp [IsTags]
  | _ => simp [isTagList, IsTags]

/-- Texts are keys as they are. -/
theorem toKeys?_map_text (tags : List String) :
    Data.toKeys? (tags.map .text) = .ok (tags.map .text) := by
  induction tags with
  | nil => rfl
  | cons s tags ih =>
    rw [List.map_cons, Data.toKeys?, ih]
    rfl

theorem SaysTags.readVoidElements_eq {ks : List Key} (h : SaysTags o ks) :
    readVoidElements o = .ok ks := by
  cases h with
  | absent => rfl
  | list tags | tuple tags =>
    rw [readVoidElements, readItems, toKeys?_map_text]
    rfl

theorem exists_saysTags_iff : (∃ ks, SaysTags o ks) ↔ ∀ d ∈ o, IsTags d := by
  constructor
  · rintro ⟨_, hks⟩ d hd
    cases hks with
    | absent => cases hd
    | list tags => exact ⟨tags, .inl (Option.some.inj hd).symm⟩
    | tuple tags => exact ⟨tags, .inr (Option.some.inj hd).symm⟩
  · intro h
    cases o with
    | none => exact ⟨_, .absent⟩
    | some d =>
      obtain ⟨tags, rfl | rfl⟩ := h d rfl
      · exact ⟨_, .list tags⟩
      · exact ⟨_, .tuple tags⟩

/-- Tags that are a list of texts are read, and they are what the setting says. -/
theorem readVoidElements_eq_ok_iff (h : ∀ d ∈ o, IsTags d) {ks : List Key} :
    readVoidElements o = .ok ks ↔ SaysTags o ks := by
  obtain ⟨ks', hks'⟩ := exists_saysTags_iff.2 h
  refine ⟨fun hread => ?_, SaysTags.readVoidElements_eq⟩
  obtain rfl : ks' = ks := Except.ok.inj (hks'.readVoidElements_eq.symm.trans hread)
  exact hks'

/-! ## All settings -/

theorem ofSettings_eq_ok_iff {s : Settings} :
    ofSettings s = .ok c ↔ readLimit s.limit = .ok ⟨c.limit, c.limit_pos⟩ ∧
      readDoctype s.doctype = .ok c.doctype ∧ readAutoescape s.autoescape = .ok c.autoescape ∧
        readVoidElements s.voidElements = .ok c.voidElements := by
  simp only [ofSettings, Data.bind_eq_ok_iff]
  constructor
  · rintro ⟨limit, hlimit, doctype, hdoctype, autoescape, hautoescape, tags, htags, hmade⟩
    cases hmade
    exact ⟨hlimit, hdoctype, hautoescape, htags⟩
  · rintro ⟨hlimit, hdoctype, hautoescape, htags⟩
    exact ⟨_, hlimit, _, hdoctype, _, hautoescape, _, htags, rfl⟩

/-- With known keys, the tags without a body are checked before the other settings are read. -/
theorem ofData_of_known (h : unknownKeys pairs = []) :
    ofData (.map pairs) =
      if (Data.get? pairs "void_elements").all isTagList then ofSettings (.ofPairs pairs)
      else .error .noTagList := by
  rw [ofData, h]
  show (if !(Data.get? pairs "void_elements").all isTagList then _ else _) = _
  cases (Data.get? pairs "void_elements").all isTagList <;> rfl

/-- Unknown keys are put in order for the message. -/
theorem ofData_of_unknown (h : unknownKeys pairs ≠ []) :
    ofData (.map pairs) =
      match Key.sort? (unknownKeys pairs) with
      | .ok ks => .error (.showing (ks.mapM Key.toText?) .unknownKeys)
      | .error (k, l) => .error (.unordered k l) := by
  rw [ofData, sortKeys]
  cases hsort : Key.sort? (unknownKeys pairs) with
  | error clash => rfl
  | ok ks =>
    cases ks with
    | nil => exact absurd (Key.perm_of_sort? hsort).symm.eq_nil h
    | cons k ks => rfl

/-- Settings are read one after the other; tags that are a list of texts are read without error. -/
theorem ofSettings_eq_error_iff {s : Settings} (htags : ∀ d ∈ s.voidElements, IsTags d) :
    ofSettings s = .error e ↔ readLimit s.limit = .error e ∨ (∀ d ∈ s.limit, IsLimit d) ∧
      (readDoctype s.doctype = .error e ∨ (∀ d ∈ s.doctype, IsDoctype d) ∧
        readAutoescape s.autoescape = .error e) := by
  obtain ⟨ks, hks⟩ := exists_saysTags_iff.2 htags
  have hlimit : (∃ l, readLimit s.limit = .ok l) ↔ ∀ d ∈ s.limit, IsLimit d := by
    rw [← exists_saysLimit_iff]
    exact ⟨fun ⟨l, hl⟩ => ⟨_, readLimit_eq_ok_iff.1 hl⟩,
      fun ⟨n, hn⟩ => ⟨⟨n, hn.pos⟩, readLimit_eq_ok_iff.2 hn⟩⟩
  have hdoctype : (∃ v, readDoctype s.doctype = .ok v) ↔ ∀ d ∈ s.doctype, IsDoctype d := by
    rw [← exists_saysDoctype_iff]
    exact exists_congr fun v => readDoctype_eq_ok_iff
  rw [← hlimit, ← hdoctype, ofSettings, hks.readVoidElements_eq]
  cases readLimit s.limit <;> cases readDoctype s.doctype <;> cases readAutoescape s.autoescape <;>
    simp [bind, Except.bind, pure, Except.pure]

/-! ## All checks -/

theorem mem_unknownKeys_iff {k : Key} :
    k ∈ unknownKeys pairs ↔ k ∈ pairs.map Prod.fst ∧ ∀ name ∈ knownKeys, k ≠ .text name := by
  rw [unknownKeys, List.mem_filter, Bool.not_eq_true', ← Bool.not_eq_true, Key.isIn_map_text_iff]
  push Not
  rfl

theorem unknownKeys_eq_nil_iff :
    unknownKeys pairs = [] ↔ ∀ p ∈ pairs, ∃ name ∈ knownKeys, p.1 = .text name := by
  rw [unknownKeys, List.filter_eq_nil_iff, List.forall_mem_map]
  simp only [Bool.not_eq_true', Bool.not_eq_false, Key.isIn_map_text_iff]

theorem all_isTagList_iff : o.all isTagList = true ↔ ∀ d ∈ o, IsTags d := by
  cases o <;> simp [isTagList_iff]

/-- A map says a configuration when its keys are known and what stands under them is right. -/
theorem exists_says_iff : (∃ c, Says pairs c) ↔ Admits pairs := by
  constructor
  · rintro ⟨c, h⟩
    exact ⟨unknownKeys_eq_nil_iff.1 h.known, exists_saysDoctype_iff.1 ⟨_, h.doctype⟩,
      exists_saysLimit_iff.1 ⟨_, h.limit⟩, exists_saysTags_iff.1 ⟨_, h.voidElements⟩,
      exists_saysChoice_iff.1 ⟨_, h.autoescape⟩⟩
  · intro h
    obtain ⟨doctype, hdoctype⟩ := exists_saysDoctype_iff.2 h.doctype
    obtain ⟨limit, hlimit⟩ := exists_saysLimit_iff.2 h.limit
    obtain ⟨tags, htags⟩ := exists_saysTags_iff.2 h.voidElements
    obtain ⟨autoescape, hautoescape⟩ := exists_saysChoice_iff.2 h.autoescape
    exact ⟨⟨doctype, limit, tags, autoescape, hlimit.pos⟩, unknownKeys_eq_nil_iff.2 h.known,
      hdoctype, hlimit, htags, hautoescape⟩

/-- The configuration that is read from a map is the one that the map says. -/
theorem ofData_eq_ok_iff : ofData (.map pairs) = .ok c ↔ Says pairs c := by
  constructor
  · intro h
    by_cases hknown : unknownKeys pairs = []
    · rw [ofData_of_known hknown] at h
      split at h
      · rename_i htags
        obtain ⟨hlimit, hdoctype, hautoescape, hread⟩ := ofSettings_eq_ok_iff.1 h
        exact ⟨hknown, readDoctype_eq_ok_iff.1 hdoctype, readLimit_eq_ok_iff.1 hlimit,
          (readVoidElements_eq_ok_iff (all_isTagList_iff.1 htags)).1 hread,
          readAutoescape_eq_ok_iff.1 hautoescape⟩
      · cases h
    · rw [ofData_of_unknown hknown] at h
      split at h <;> cases h
  · intro h
    have htags := all_isTagList_iff.2 (exists_saysTags_iff.1 ⟨_, h.voidElements⟩)
    rw [ofData_of_known h.known, if_pos htags]
    exact ofSettings_eq_ok_iff.2 ⟨readLimit_eq_ok_iff.2 h.limit, readDoctype_eq_ok_iff.2 h.doctype,
      readAutoescape_eq_ok_iff.2 h.autoescape, h.voidElements.readVoidElements_eq⟩

/-- The first check that fails decides the error. -/
theorem ofData_eq_error_iff : ofData (.map pairs) = .error e ↔ Refuses pairs e := by
  constructor
  · intro h
    by_cases hknown : unknownKeys pairs = []
    · rw [ofData_of_known hknown] at h
      split at h
      · rename_i htags
        have htags := all_isTagList_iff.1 htags
        rcases (ofSettings_eq_error_iff htags).1 h with h | ⟨hlimit, h | ⟨hdoctype, h⟩⟩
        · obtain ⟨d, hd, ⟨htype, rfl⟩ | ⟨n, rfl, hn, rfl⟩⟩ := readLimit_eq_error_iff.1 h
          · exact .limitType hknown htags hd htype
          · exact .limitRange hknown htags hd hn
        · obtain ⟨d, hd, htype, rfl⟩ := readDoctype_eq_error_iff.1 h
          exact .doctypeType hknown htags hlimit hd htype
        · obtain ⟨d, hd, htype, rfl⟩ := readAutoescape_eq_error_iff.1 h
          exact .autoescapeType hknown htags hlimit hdoctype hd htype
      · rename_i htags
        cases h
        rw [all_isTagList_iff] at htags
        push Not at htags
        obtain ⟨d, hd, htype⟩ := htags
        exact .noTagList hknown hd htype
    · rw [ofData_of_unknown hknown] at h
      split at h
      · rename_i hsort
        cases h
        exact .unknownKeys hknown hsort
      · rename_i hsort
        cases h
        exact .unordered hsort
  · intro h
    have hsettings (hknown : unknownKeys pairs = [])
        (htags : ∀ d ∈ Data.get? pairs "void_elements", IsTags d)
        (herror : ofSettings (.ofPairs pairs) = .error e) : ofData (.map pairs) = .error e := by
      rwa [ofData_of_known hknown, if_pos (all_isTagList_iff.2 htags)]
    cases h with
    | unordered hsort =>
      have hne : unknownKeys pairs ≠ [] := by
        intro hnil
        rw [hnil] at hsort
        cases hsort
      rw [ofData_of_unknown hne, hsort]
    | unknownKeys hne hsort => rw [ofData_of_unknown hne, hsort]
    | noTagList hknown hd htype =>
      rw [ofData_of_known hknown, if_neg]
      exact fun hall => htype (all_isTagList_iff.1 hall _ hd)
    | limitType hknown htags hd htype =>
      have hlimit := readLimit_eq_error_iff.2 ⟨_, hd, .inl ⟨htype, rfl⟩⟩
      exact hsettings hknown htags ((ofSettings_eq_error_iff htags).2 (.inl hlimit))
    | limitRange hknown htags hd hn =>
      have hlimit := readLimit_eq_error_iff.2 ⟨_, hd, .inr ⟨_, rfl, hn, rfl⟩⟩
      exact hsettings hknown htags ((ofSettings_eq_error_iff htags).2 (.inl hlimit))
    | doctypeType hknown htags hlimit hd htype =>
      have hdoctype := readDoctype_eq_error_iff.2 ⟨_, hd, htype, rfl⟩
      exact hsettings hknown htags
        ((ofSettings_eq_error_iff htags).2 (.inr ⟨hlimit, .inl hdoctype⟩))
    | autoescapeType hknown htags hlimit hdoctype hd htype =>
      have hautoescape := readAutoescape_eq_error_iff.2 ⟨_, hd, htype, rfl⟩
      exact hsettings hknown htags
        ((ofSettings_eq_error_iff htags).2 (.inr ⟨hlimit, .inr ⟨hdoctype, hautoescape⟩⟩))

/-- What is found in a map stands in it. -/
theorem exists_mem_of_mem_get? {d : Data} {name : String} (hd : d ∈ Data.get? pairs name) :
    ∃ k, (k, d) ∈ pairs := by
  rw [Data.get?, Option.mem_def] at hd
  induction pairs with
  | nil => cases hd
  | cons p pairs ih =>
    obtain ⟨k, d'⟩ := p
    rw [List.lookup_cons] at hd
    split at hd
    · cases hd
      exact ⟨k, List.mem_cons_self⟩
    · exact (ih hd).imp fun _ hmem => List.mem_cons_of_mem _ hmem

/-- Where what is found in a map cannot be shown, the map cannot be shown. -/
theorem isLong_of_mem_get? {d : Data} {name : String} (hd : d ∈ Data.get? pairs name)
    (h : d.display? = none) : (Data.map pairs).IsLong :=
  let ⟨_, hmem⟩ := exists_mem_of_mem_get? hd
  .value hmem ((Data.display?_eq_none_iff d).1 h)

/-- The error is one of the configuration, unless two unknown keys have no order or the message
would show an integer with too many digits. -/
theorem Refuses.typeName_eq (h : Refuses pairs e) :
    e.typeName = "ConfigError" ∨ (∃ k l, e = .unordered k l) ∨
      e = .longInteger ∧ (Data.map pairs).IsLong := by
  have hshowing {α : Type} {shown : Option α} {f : α → ConfigError}
      (hf : ∀ a, (f a).typeName = "ConfigError") (hlong : shown = none → (Data.map pairs).IsLong) :
      (ConfigError.showing shown f).typeName = "ConfigError" ∨
        (∃ k l, ConfigError.showing shown f = .unordered k l) ∨
          ConfigError.showing shown f = .longInteger ∧ (Data.map pairs).IsLong :=
    (ConfigError.typeName_showing hf).imp id fun ⟨he, hnone⟩ => .inr ⟨he, hlong hnone⟩
  cases h with
  | unordered => exact .inr (.inl ⟨_, _, rfl⟩)
  | unknownKeys _ hsort =>
    refine hshowing (fun _ => rfl) fun hnone => ?_
    obtain ⟨k, hk, hlong⟩ := Key.mapM_toText?_eq_none_iff.1 hnone
    obtain ⟨p, hp, rfl⟩ := List.mem_map.1
      (mem_unknownKeys_iff.1 ((Key.perm_of_sort? hsort).mem_iff.1 hk)).1
    exact .key hp hlong
  | limitType _ _ hd _ => exact hshowing (fun _ => rfl) (isLong_of_mem_get? hd)
  | limitRange _ _ hd _ => exact hshowing (fun _ => rfl) (isLong_of_mem_get? hd)
  | autoescapeType _ _ _ _ hd _ => exact hshowing (fun _ => rfl) (isLong_of_mem_get? hd)
  | noTagList | doctypeType => exact .inl rfl

/-- Keys are reported to have no order when they cannot be put in order. -/
theorem sort?_of_refuses {k l : Key} (h : Refuses pairs (.unordered k l)) :
    Key.sort? (unknownKeys pairs) = .error (k, l) := by
  generalize he : ConfigError.unordered k l = e at h
  cases h with
  | unordered hsort =>
    cases he
    exact hsort
  | unknownKeys | limitType | limitRange | autoescapeType =>
    obtain ⟨-, ⟨⟩⟩ | ⟨_, -, ⟨⟩⟩ := ConfigError.showing_eq_iff.1 he.symm
  | noTagList | doctypeType => cases he

/-- The unknown keys that are reported are all of them, and none is too long to be shown. -/
theorem exists_sort?_of_refuses {texts : List String}
    (h : Refuses pairs (.unknownKeys texts)) :
    ∃ ks, Key.sort? (unknownKeys pairs) = .ok ks ∧ ks.mapM Key.toText? = some texts := by
  generalize he : ConfigError.unknownKeys texts = e at h
  cases h with
  | @unknownKeys ks hne hsort =>
    obtain ⟨-, hlong⟩ | ⟨texts', htexts, hmade⟩ := ConfigError.showing_eq_iff.1 he.symm
    · cases hlong
    · cases hmade
      exact ⟨ks, hsort, htexts⟩
  | limitType | limitRange | autoescapeType =>
    obtain ⟨-, ⟨⟩⟩ | ⟨_, -, ⟨⟩⟩ := ConfigError.showing_eq_iff.1 he.symm
  | unordered | noTagList | doctypeType => cases he

/-- Scalars as unknown keys have no order when two of them are of different kinds. -/
theorem exists_unordered_iff (h : ∀ k ∈ unknownKeys pairs, k.isScalar = true) :
    (∃ k l, Refuses pairs (.unordered k l)) ↔ ¬ (unknownKeys pairs).Pairwise Key.Comparable := by
  rw [← Key.exists_sort?_eq_ok_iff h]
  constructor
  · rintro ⟨k, l, hrefuses⟩ ⟨ks, hks⟩
    rw [sort?_of_refuses hrefuses] at hks
    cases hks
  · intro hunordered
    cases hsort : Key.sort? (unknownKeys pairs) with
    | ok ks => exact absurd ⟨ks, hsort⟩ hunordered
    | error clash => exact ⟨_, _, .unordered hsort⟩

/-- Other data than a map is refused by the name of its type. -/
theorem ofData_of_not_map {d : Data} (h : ∀ pairs, d ≠ .map pairs) :
    ofData d = .error (.noMapping d.typeName) := by
  cases d with
  | map pairs => exact absurd rfl (h pairs)
  | _ => rfl

/-- **Which data is a configuration.**  For all data:

* It is a configuration exactly when it is a map whose keys are among the four that are known, with
  a text or nothing in front of a page, a positive integer as the limit, which a truth value is not,
  a list of texts as the tags without a body, and a truth value as the choice to escape.  Each of
  them may be left out.
* The configuration has what the map says, and the standard settings for what is left out.
* Otherwise the first check that fails decides the error; unknown keys are reported all together.
* The error is one of the configuration, unless two unknown keys have no order, or the message would
  show an integer with too many digits, which then stands in the data.  With scalars as unknown keys
  there is no order exactly when two of them are of different kinds. -/
theorem configuration_exact (d : Data) :
    ((∃ c, ofData d = .ok c) ↔ ∃ pairs, d = .map pairs ∧ Admits pairs) ∧
    (∀ c, ofData d = .ok c ↔ ∃ pairs, d = .map pairs ∧ Says pairs c) ∧
    (∀ e, ofData d = .error e ↔
      (∀ pairs, d ≠ .map pairs) ∧ e = .noMapping d.typeName ∨
        ∃ pairs, d = .map pairs ∧ Refuses pairs e) ∧
    (∀ texts, ofData d = .error (.unknownKeys texts) → ∃ pairs, ∃ ks : List Key,
      d = .map pairs ∧ ks.mapM Key.toText? = some texts ∧
        ∀ k, k ∈ ks ↔ k ∈ pairs.map Prod.fst ∧ ∀ name ∈ knownKeys, k ≠ .text name) ∧
    (∀ e, ofData d = .error e →
      e.typeName = "ConfigError" ∨ (e.typeName = "TypeError" ∧ ∃ k l, e = .unordered k l) ∨
        e.typeName = "ValueError" ∧ e = .longInteger ∧ d.IsLong) ∧
    ∀ pairs, d = .map pairs → (∀ k ∈ unknownKeys pairs, k.isScalar = true) →
      ((∃ e, ofData d = .error e ∧ e.typeName = "TypeError") ↔
        ¬ (unknownKeys pairs).Pairwise Key.Comparable) := by
  by_cases hmap : ∃ pairs, d = .map pairs
  · obtain ⟨pairs, rfl⟩ := hmap
    have hclass {e : ConfigError} (he : ofData (.map pairs) = .error e) :
        e.typeName = "ConfigError" ∨ (e.typeName = "TypeError" ∧ ∃ k l, e = .unordered k l) ∨
          e.typeName = "ValueError" ∧ e = .longInteger ∧ (Data.map pairs).IsLong := by
      obtain hconfig | ⟨k, l, rfl⟩ | ⟨rfl, hlong⟩ := (ofData_eq_error_iff.1 he).typeName_eq
      · exact .inl hconfig
      · exact .inr (.inl ⟨rfl, k, l, rfl⟩)
      · exact .inr (.inr ⟨rfl, rfl, hlong⟩)
    refine ⟨?_, fun c => ?_, fun e => ?_, fun texts htexts => ?_, fun e he => hclass he, ?_⟩
    · rw [exists_congr fun c => ofData_eq_ok_iff, exists_says_iff]
      simp
    · rw [ofData_eq_ok_iff]
      simp
    · rw [ofData_eq_error_iff]
      simp
    · obtain ⟨ks, hsort, hks⟩ := exists_sort?_of_refuses (ofData_eq_error_iff.1 htexts)
      refine ⟨pairs, ks, rfl, hks, fun k => ?_⟩
      rw [(Key.perm_of_sort? hsort).mem_iff, mem_unknownKeys_iff]
    · rintro _ ⟨⟩ hscalar
      rw [← exists_unordered_iff hscalar]
      constructor
      · rintro ⟨e, he, htype⟩
        obtain hconfig | ⟨-, k, l, rfl⟩ | ⟨hvalue, -⟩ := hclass he
        · exact absurd (htype.symm.trans hconfig) (by decide)
        · exact ⟨k, l, ofData_eq_error_iff.1 he⟩
        · exact absurd (htype.symm.trans hvalue) (by decide)
      · rintro ⟨k, l, h⟩
        exact ⟨_, ofData_eq_error_iff.2 h, rfl⟩
  · have hother := not_exists.1 hmap
    rw [ofData_of_not_map hother]
    refine ⟨?_, fun c => ?_, fun e => ?_, fun texts htexts => ?_, fun e he => ?_,
      fun pairs hpairs => absurd hpairs (hother pairs)⟩
    · simp [hother]
    · simp [hother]
    · simp [hother, eq_comm]
    · cases htexts
    · cases he
      exact .inl rfl

/-- A text and a number are unknown keys of different kinds, and the error for them is not one of
the configuration. -/
theorem unordered_is_typeError :
    ¬ ∀ (d : Data) (e : ConfigError), ofData d = .error e → e.typeName = "ConfigError" := by
  intro h
  have hrefused : ofData (.map [(.text "", .text "x"), (.int 1, .text "y")]) =
      .error (.unordered (.int 1) (.text "")) := rfl
  exact absurd (h _ _ hrefused) (by decide)

end Config

end MarkupForms
