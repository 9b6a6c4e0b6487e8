import MarkupForms.Document
import MarkupForms.Proofs.Layouts
import MarkupForms.Proofs.Serialisation

/-!
# Documents that are read as they were written

A document with a line for each entry of a map is read as this map: its characters are left as they
are, its tokens are those of the entries, their tree has the values below the keys, and each scalar
says what was written.  So a context is read from such a document with the same names and values as
from the map, and so is a configuration.

* `Yaml.characters_written` : the characters of a document are left as they are.
* `Yaml.Node.read_tokens`, `Yaml.Node.ofTokens_lineTokens` : the tokens of a value, and those of a
  document, are read as its tree.
* `Yaml.scalarData_int` : an integer is read as it is spelled.
* `Yaml.read_written` : what a document says.
* `Context.ofDocument_written`, `Config.ofDocument_written` : the context and the configuration that
  a document stands for.
* `Config.ofDocument_entries` : a configuration is read as it was written.
-/

namespace MarkupForms

namespace Yaml

/-! ## Characters -/

/-- Whether a character is left as it is when a document is read. -/
def isKept (c : Char) : Bool :=
  isAllowed c && !(c == '\r' || c.toNat == 0x85)

theorem unifyBreaks_eq_self {s : List Char} (h : ∀ c ∈ s, isKept c = true) : unifyBreaks s = s := by
  induction s with
  | nil => rfl
  | cons c s ih =>
    obtain ⟨hc, hs⟩ := List.forall_mem_cons.1 h
    simp only [isKept, Bool.and_eq_true, Bool.not_eq_true', Bool.or_eq_false_iff,
      beq_eq_false_iff_ne, ne_eq] at hc
    obtain ⟨-, hreturn, hnext⟩ := hc
    rw [unifyBreaks, ih hs, if_neg (by simp [hreturn, hnext])]
    rintro r rfl
    exact absurd rfl hreturn

theorem isKept_of_staysOnLine {c : Char} (h : staysOnLine c = true) : isKept c = true := by
  obtain ⟨hallowed, -, hreturn, hnext⟩ := Layout.staysOnLine_iff.1 h
  simp [isKept, hallowed, hreturn, hnext]

theorem isKept_of_isWordChar {c : Char} (h : Layout.isWordChar c = true) : isKept c = true :=
  Layout.of_isWordChar (P := fun c => isKept c = true) (by decide) h

theorem isKept_quote {s : String} (hs : IsLine s) : ∀ c ∈ quote s, isKept c = true := by
  intro c hc
  rw [quote, List.mem_cons, List.mem_append, List.mem_singleton, protectSingle,
    List.mem_flatMap] at hc
  obtain rfl | ⟨d, hd, hc⟩ | rfl := hc
  · decide
  · split at hc
    · rename_i hdq
      simp only [List.mem_cons, List.not_mem_nil, or_false, or_self] at hc
      rw [hc]
      decide
    · rw [List.mem_singleton.1 hc]
      exact isKept_of_staysOnLine (hs d hd)
  · decide

theorem isKept_separator (isFirst : Bool) : ∀ c ∈ Inline.separator isFirst, isKept c = true := by
  cases isFirst <;> exact List.all_eq_true.1 (by decide)

mutual

/-- All characters of a value are left as they are. -/
theorem isKept_chars (v : Inline) (hv : v.IsWritable) : ∀ c ∈ v.chars, isKept c = true := by
  match v with
  | .word w => exact fun c hc => isKept_of_isWordChar ((Layout.isWord_chars w).2 c hc)
  | .text s => exact isKept_quote hv
  | .list items => exact List.forall_mem_cons.2 ⟨by decide, isKept_itemChars true items hv⟩
  | .map entries => exact List.forall_mem_cons.2 ⟨by decide, isKept_entryChars true entries hv.2⟩

theorem isKept_itemChars (isFirst : Bool) (vs : List Inline) (hvs : Inline.AllWritable vs) :
    ∀ c ∈ Inline.itemChars isFirst vs, isKept c = true := by
  match vs with
  | [] => exact List.forall_mem_singleton.2 (by decide)
  | v :: vs =>
    refine List.forall_mem_append.2 ⟨isKept_separator isFirst, List.forall_mem_append.2 ⟨?_, ?_⟩⟩
    · exact isKept_chars v hvs.1
    · exact isKept_itemChars false vs hvs.2

theorem isKept_entryChars (isFirst : Bool) (es : List (String × Inline))
    (hes : Inline.EntriesWritable es) :
    ∀ c ∈ Inline.entryChars isFirst es, isKept c = true := by
  match es with
  | [] => exact List.forall_mem_singleton.2 (by decide)
  | (k, v) :: es =>
    refine List.forall_mem_append.2 ⟨isKept_separator isFirst, List.forall_mem_append.2 ⟨?_, ?_⟩⟩
    · exact isKept_quote hes.1.1
    · refine List.forall_mem_cons.2 ⟨by decide, List.forall_mem_cons.2 ⟨by decide, ?_⟩⟩
      exact List.forall_mem_append.2 ⟨isKept_chars v hes.2.1, isKept_entryChars false es hes.2.2⟩

end

theorem isKept_lines {es : List (String × Inline)} (hes : Inline.EntriesWritable es) :
    ∀ c ∈ lines es, isKept c = true := by
  match es with
  | [] => exact nofun
  | (k, v) :: es =>
    refine List.forall_mem_append.2 ⟨isKept_quote hes.1.1, ?_⟩
    refine List.forall_mem_cons.2 ⟨by decide, List.forall_mem_cons.2 ⟨by decide, ?_⟩⟩
    refine List.forall_mem_append.2 ⟨isKept_chars v hes.2.1, List.forall_mem_cons.2 ⟨by decide, ?_⟩⟩
    exact isKept_lines hes.2.2

/-- A written document has the characters of its lines. -/
theorem characters_written {es : List (String × Inline)} (hes : Inline.EntriesWritable es) :
    characters (written es) = .ok (lines es) := by
  have hkept := isKept_lines hes
  have hnone : (lines es).find? (fun c => !isAllowed c) = none := by
    refine List.find?_eq_none.2 fun c hc => ?_
    have hc' := hkept c hc
    simp only [isKept, Bool.and_eq_true] at hc'
    simp [hc'.1]
  rw [characters, written, String.toList_ofList, hnone, unifyBreaks_eq_self hkept]
  match es with
  | [] => rfl
  | (k, v) :: es => rfl

/-! ## Trees -/

namespace Node

/-- Whether some tokens start like a value. -/
def StartsValue (ts : List Token) : Prop :=
  ∃ t r, ts = t :: r ∧ (t = .openList ∨ t = .openMap ∨ ∃ s p, t = .scalar s p)

theorem startsValue_tokens (v : Inline) (rest : List Token) : StartsValue (v.tokens ++ rest) := by
  cases v with
  | word w => exact ⟨_, _, rfl, .inr (.inr ⟨_, _, rfl⟩)⟩
  | text s => exact ⟨_, _, rfl, .inr (.inr ⟨_, _, rfl⟩)⟩
  | list items => exact ⟨_, _, rfl, .inl rfl⟩
  | map entries => exact ⟨_, _, rfl, .inr (.inl rfl)⟩

/-- Every value has a token. -/
theorem length_tokens_pos (v : Inline) : 0 < v.tokens.length := by
  cases v <;> exact Nat.succ_pos _

/-- Ends that no value starts with. -/
def AreEnds (ends : List Token) : Prop :=
  .openList ∉ ends ∧ .openMap ∉ ends ∧ ∀ s p, .scalar s p ∉ ends

/-- A value is read where an end might have been. -/
theorem readUnless_of_startsValue {ends : List Token} (hends : AreEnds ends) {ts : List Token}
    (hts : StartsValue ts) (block underKey : Bool) (fuel : Nat) :
    readUnless ends block underKey (fuel + 1) ts = read block underKey fuel ts := by
  obtain ⟨t, r, rfl, ht⟩ := hts
  have hnot : startsWith ends (t :: r) = false := by
    rw [startsWith, List.contains_eq_mem, decide_eq_false_iff_not]
    rcases ht with rfl | rfl | ⟨s, p, rfl⟩
    · exact hends.1
    · exact hends.2.1
    · exact hends.2.2 s p
  rw [readUnless, hnot, if_neg Bool.false_ne_true]

/-- An item of a list is read after its comma, if there is one. -/
theorem flowItems_of_startsValue (isFirst : Bool) {ts : List Token} (hts : StartsValue ts)
    (fuel : Nat) :
    flowItems isFirst (fuel + 2) (Inline.separatorTokens isFirst ++ ts) =
      (do
        let (first, ts) ← read false false fuel ts
        let (items, ts) ← flowItems false fuel ts
        return (first :: items, ts)) := by
  obtain ⟨t, r, rfl, rfl | rfl | ⟨s, p, rfl⟩⟩ := hts <;> cases isFirst <;> rfl

/-- An entry of a map is read after its comma, if there is one. -/
theorem flowEntries_key (isFirst : Bool) (k : String) {ts : List Token} (hts : StartsValue ts)
    (fuel : Nat) :
    flowEntries isFirst (fuel + 4)
        (Inline.separatorTokens isFirst ++ (.key :: .scalar k false :: .value :: ts)) =
      (do
        let (value, ts) ← read false false fuel ts
        let (entries, ts) ← flowEntries false (fuel + 2) ts
        return ((.scalar k false, value) :: entries, ts)) := by
  have hends : AreEnds [.comma, .closeMap] := ⟨by decide, by decide, fun _ _ => by simp⟩
  have hentry : flowEntries isFirst (fuel + 4)
      (Inline.separatorTokens isFirst ++ (.key :: .scalar k false :: .value :: ts)) =
        flowEntry (fuel + 3) (.key :: .scalar k false :: .value :: ts) := by
    cases isFirst <;> rfl
  have hkey : readUnless [.value, .comma, .closeMap] false false (fuel + 2)
      (.scalar k false :: .value :: ts) = .ok (.scalar k false, .value :: ts) := rfl
  have hvalue : valueOf [.comma, .closeMap] false (fuel + 2) (.value :: ts) =
      read false false fuel ts := by
    rw [valueOf, readUnless_of_startsValue hends hts]
  rw [hentry, flowEntry, hkey]
  change (do let p ← valueOf [.comma, .closeMap] false (fuel + 2) (.value :: ts); _) = _
  rw [hvalue]

mutual

/-- The tokens of a value are read as its tree. -/
theorem read_tokens (v : Inline) (block underKey : Bool) {fuel : Nat}
    (hfuel : 4 * v.tokens.length ≤ fuel) (rest : List Token) :
    read block underKey fuel (v.tokens ++ rest) = .ok (v.node, rest) := by
  obtain ⟨fuel, rfl⟩ : ∃ n, fuel = n + 1 := by
    have := length_tokens_pos v
    exact ⟨fuel - 1, by omega⟩
  match v with
  | .word w => rfl
  | .text s => rfl
  | .list items =>
    rw [Inline.tokens, List.length_cons] at hfuel
    rw [Inline.tokens, List.cons_append, read,
      flowItems_itemTokens true items (by omega) rest]
    rfl
  | .map entries =>
    rw [Inline.tokens, List.length_cons] at hfuel
    rw [Inline.tokens, List.cons_append, read,
      flowEntries_entryTokens true entries (by omega) rest]
    rfl

theorem flowItems_itemTokens (isFirst : Bool) (vs : List Inline) {fuel : Nat}
    (hfuel : 4 * (Inline.itemTokens isFirst vs).length ≤ fuel) (rest : List Token) :
    flowItems isFirst fuel (Inline.itemTokens isFirst vs ++ rest) =
      .ok (Inline.nodes vs, rest) := by
  match vs with
  | [] =>
    obtain ⟨fuel, rfl⟩ : ∃ n, fuel = n + 1 := by
      rw [Inline.itemTokens, List.length_singleton] at hfuel
      exact ⟨fuel - 1, by omega⟩
    rfl
  | v :: vs =>
    have hpos := length_tokens_pos v
    simp only [Inline.itemTokens, List.length_append] at hfuel
    have hrest : 0 < (Inline.itemTokens false vs).length := by
      cases vs <;> simp [Inline.itemTokens, Inline.separatorTokens]
    obtain ⟨fuel, rfl⟩ : ∃ n, fuel = n + 2 := ⟨fuel - 2, by omega⟩
    rw [Inline.itemTokens, List.append_assoc, List.append_assoc,
      flowItems_of_startsValue isFirst (startsValue_tokens v _),
      read_tokens v false false (by omega)]
    change (do let p ← flowItems false fuel (Inline.itemTokens false vs ++ rest); _) = _
    rw [flowItems_itemTokens false vs (by omega) rest]
    rfl

theorem flowEntries_entryTokens (isFirst : Bool) (es : List (String × Inline)) {fuel : Nat}
    (hfuel : 4 * (Inline.entryTokens isFirst es).length ≤ fuel) (rest : List Token) :
    flowEntries isFirst fuel (Inline.entryTokens isFirst es ++ rest) =
      .ok (Inline.entryNodes es, rest) := by
  match es with
  | [] =>
    obtain ⟨fuel, rfl⟩ : ∃ n, fuel = n + 1 := by
      rw [Inline.entryTokens, List.length_singleton] at hfuel
      exact ⟨fuel - 1, by omega⟩
    rfl
  | (k, v) :: es =>
    have hpos := length_tokens_pos v
    simp only [Inline.entryTokens, List.length_append, List.length_cons] at hfuel
    obtain ⟨fuel, rfl⟩ : ∃ n, fuel = n + 4 := ⟨fuel - 4, by omega⟩
    rw [Inline.entryTokens, List.append_assoc, List.cons_append, List.cons_append,
      List.cons_append, List.append_assoc,
      flowEntries_key isFirst k (startsValue_tokens v _), read_tokens v false false (by omega)]
    change (do let p ← flowEntries false (fuel + 2) (Inline.entryTokens false es ++ rest); _) = _
    rw [flowEntries_entryTokens false es (by omega) rest]
    rfl

end

/-- An entry on a line of its own is read. -/
theorem blockEntries_key (k : String) {ts : List Token} (hts : StartsValue ts) (fuel : Nat) :
    blockEntries (fuel + 3) (.key :: .scalar k false :: .value :: ts) =
      (do
        let (value, ts) ← read true true fuel ts
        let (entries, ts) ← blockEntries (fuel + 2) ts
        return ((.scalar k false, value) :: entries, ts)) := by
  have hends : AreEnds entryEnds := ⟨by decide, by decide, fun _ _ => by simp [entryEnds]⟩
  have hkey : readUnless entryEnds true true (fuel + 2) (.scalar k false :: .value :: ts) =
      .ok (.scalar k false, .value :: ts) := rfl
  have hvalue : valueOf entryEnds true (fuel + 2) (.value :: ts) = read true true fuel ts := by
    rw [valueOf, readUnless_of_startsValue hends hts]
  rw [blockEntries, hkey]
  change (do let p ← valueOf entryEnds true (fuel + 2) (.value :: ts); _) = _
  rw [hvalue]

/-- The tokens of lines are read as the entries of a map. -/
theorem blockEntries_lineTokens (es : List (String × Inline)) {fuel : Nat}
    (hfuel : 4 * (lineTokens es).length < fuel) :
    blockEntries fuel (lineTokens es ++ [.blockEnd]) = .ok (Inline.entryNodes es, []) := by
  match es with
  | [] =>
    obtain ⟨fuel, rfl⟩ : ∃ n, fuel = n + 1 := ⟨fuel - 1, by omega⟩
    rfl
  | (k, v) :: es =>
    simp only [lineTokens, List.length_append, List.length_cons] at hfuel
    obtain ⟨fuel, rfl⟩ : ∃ n, fuel = n + 3 := ⟨fuel - 3, by omega⟩
    rw [lineTokens, List.cons_append, List.cons_append, List.cons_append, List.append_assoc,
      blockEntries_key k (startsValue_tokens v _), read_tokens v true true (by omega)]
    change (do let p ← blockEntries (fuel + 2) (lineTokens es ++ [Token.blockEnd]); _) = _
    rw [blockEntries_lineTokens es (by omega)]
    rfl

/-- The tree of a written document is a map. -/
theorem ofTokens_lineTokens (es : List (String × Inline)) :
    ofTokens (.mapStart :: (lineTokens es ++ [.blockEnd])) =
      .ok (some (.map (Inline.entryNodes es))) := by
  obtain ⟨ts, hts⟩ : ∃ ts, ts = lineTokens es ++ [Token.blockEnd] := ⟨_, rfl⟩
  have hread : read true false (4 * (Token.mapStart :: ts).length + 2) (.mapStart :: ts) =
      .ok (.map (Inline.entryNodes es), []) := by
    rw [read, if_pos rfl, hts, blockEntries_lineTokens es (by simp; omega)]
    rfl
  rw [← hts, ofTokens, hread]
  · rfl
  all_goals simp

end Node

/-! ## What is said -/

/-- The digits of a number are its value. -/
theorem foldl_digitValue (n : Nat) :
    (Nat.toDigits 10 n).foldl (fun m c => 10 * m + digitValue c) 0 = n := by
  have hdigits : ∀ c ∈ Nat.toDigits 10 n, c.isDigit = true :=
    fun c hc => Nat.isDigit_of_mem_toDigits (by decide) (by decide) hc
  have hfold : (Nat.toDigits 10 n).foldl (fun m c => 10 * m + digitValue c) 0 =
      Nat.ofDigitChars 10 (Nat.toDigits 10 n) 0 := by
    rw [Nat.ofDigitChars]
    refine List.foldl_ext _ _ _ fun m c hc => ?_
    rw [digitValue, hdigits c hc, if_pos rfl]
    rfl
  rw [hfold, Nat.ofDigitChars_ten_toDigits]

/-- Decimal digits have no mark for another base in front. -/
theorem cutBase_of_isDigit {s : List Char} (h : ∀ c ∈ s, c.isDigit = true) :
    cutBase s = (10, s) := by
  unfold cutBase
  split
  · exact absurd (h 'b' (by simp)) (by decide)
  · exact absurd (h 'o' (by simp)) (by decide)
  · exact absurd (h 'x' (by simp)) (by decide)
  · rfl

/-- An integer is spelled with a sign, if it is negative, and its digits. -/
theorem toList_toString (n : Int) : (toString n).toList =
    (if n < 0 then ['-'] else []) ++ Nat.toDigits 10 n.natAbs := by
  cases n with
  | ofNat m =>
    rw [if_neg (by simp), List.nil_append]
    exact Nat.toList_repr
  | negSucc m =>
    rw [if_pos (Int.negSucc_lt_zero m)]
    change ("-" ++ (m + 1).repr).toList = _
    rw [String.toList_append, Nat.toList_repr]
    rfl

theorem cutSign_toString (n : Int) :
    cutSign (toString n).toList = (decide (n < 0), Nat.toDigits 10 n.natAbs) := by
  rw [toList_toString]
  by_cases hn : n < 0
  · simp [hn, cutSign]
  · rw [if_neg hn, List.nil_append, decide_eq_false hn]
    unfold cutSign
    split
    · rename_i hds
      exact absurd (Nat.isDigit_of_mem_toDigits (by decide) (by decide)
        (hds ▸ List.mem_cons_self : '-' ∈ Nat.toDigits 10 n.natAbs)) (by decide)
    · rename_i hds
      exact absurd (Nat.isDigit_of_mem_toDigits (by decide) (by decide)
        (hds ▸ List.mem_cons_self : '+' ∈ Nat.toDigits 10 n.natAbs)) (by decide)
    · rfl

/-- The spelling of an integer starts with a sign or a digit, unlike the spellings that are kept for
something else. -/
theorem toString_notMem (n : Int) :
    toString n ∉ nullSpellings ++ trueSpellings ++ falseSpellings ++ reservedSpellings := by
  have hkept : ∀ s ∈ nullSpellings ++ trueSpellings ++ falseSpellings ++ reservedSpellings,
      s.toList.head?.all (fun c => !(c == '-' || c.isDigit)) = true := by
    decide
  intro hmem
  have hhead := hkept _ hmem
  rw [toList_toString] at hhead
  by_cases hn : n < 0
  · simp [hn] at hhead
  · rw [if_neg hn, List.nil_append] at hhead
    cases hds : Nat.toDigits 10 n.natAbs with
    | nil => exact Nat.toDigits_ne_nil hds
    | cons d ds =>
      have hd : d.isDigit = true := Nat.isDigit_of_mem_toDigits (by decide) (by decide)
        (hds ▸ List.mem_cons_self : d ∈ Nat.toDigits 10 n.natAbs)
      simp [hds, hd] at hhead

/-- An integer that is not too long is read as it is spelled. -/
theorem scalarData_int {n : Int} (hn : n.natAbs < Text.digitBound) :
    scalarData (toString n).toList = .ok (.int n) := by
  have hdigits : ∀ c ∈ Nat.toDigits 10 n.natAbs, c.isDigit = true :=
    fun c hc => Nat.isDigit_of_mem_toDigits (by decide) (by decide) hc
  have hfilter : (Nat.toDigits 10 n.natAbs).filter (· != '_') = Nat.toDigits 10 n.natAbs := by
    refine List.filter_eq_self.2 fun c hc => ?_
    rw [bne_iff_ne]
    rintro rfl
    exact absurd (hdigits _ hc) (by decide)
  have hvalue : integer (decide (n < 0)) 10 (Nat.toDigits 10 n.natAbs) = .ok (.int n) := by
    have hlength := (Text.length_digits_le_digitLimit_iff n.natAbs).2 hn
    have hsign : (if decide (n < 0) = true then -(n.natAbs : Int) else n.natAbs) = n := by
      by_cases hneg : n < 0
      · rw [decide_eq_true hneg, if_pos rfl]
        omega
      · rw [decide_eq_false hneg, if_neg Bool.false_ne_true]
        omega
    simp only [integer, foldl_digitValue, hsign]
    simp [Nat.toDigits_ne_nil, Nat.not_lt.2 hlength]
  have hunderscore : ((toString n).toList.head? == some '_') = false := by
    rw [toList_toString]
    by_cases hn : n < 0
    · simp [hn]
    · rw [if_neg hn, List.nil_append, beq_eq_false_iff_ne]
      intro hhead
      exact absurd (hdigits _ (List.mem_of_head? hhead)) (by decide)
  have hall : (Nat.toDigits 10 n.natAbs).all (isDigitIn 10) = true := by
    refine List.all_eq_true.2 fun c hc => ?_
    obtain ⟨hlow, hhigh⟩ := Char.isDigit_iff_toNat.1 (hdigits c hc)
    simp only [Char.reduceToNat] at hlow hhigh
    simp [isDigitIn, digitValue, hdigits c hc]
    omega
  have hspelling := toString_notMem n
  have hcut := cutSign_toString n
  generalize toString n = s at hspelling hcut hunderscore ⊢
  have hinteger : integerDigits? s.toList = some (10, Nat.toDigits 10 n.natAbs) := by
    simp only [integerDigits?, hcut, cutBase_of_isDigit hdigits, hunderscore, hfilter, hall]
    simp [Nat.toDigits_ne_nil]
  simp only [List.mem_append, not_or] at hspelling
  rw [scalarData, hinteger, hcut, String.ofList_toList]
  simp [hspelling, hvalue]

theorem mergedPairs_entryNodes (es : List (String × Inline)) :
    Node.mergedPairs (Inline.entryNodes es) = .ok [] := by
  match es with
  | [] => rfl
  | (k, v) :: es => exact mergedPairs_entryNodes es

mutual

/-- The tree of a value says what the value says. -/
theorem toData_node (v : Inline) (hv : v.IsWritable) : v.node.toData = .ok v.toData := by
  match v with
  | .word .null => rfl
  | .word (.truth b) => cases b <;> rfl
  | .word (.int n) =>
    rw [Inline.node, Node.toData, if_pos rfl, String.toList_ofList]
    exact scalarData_int hv
  | .text s => rfl
  | .list items =>
    rw [Inline.node, Node.toData, toDataAll_nodes items hv]
    rfl
  | .map entries =>
    have hown : Node.ownPairs true [] (Inline.entryNodes entries) = .ok (Inline.toPairs entries) :=
      ownPairs_entryNodes entries hv.2 hv.1 fun _ _ => rfl
    rw [Inline.node, Node.toData, mergedPairs_entryNodes]
    change (do return Data.map (← Node.ownPairs true [] (Inline.entryNodes entries))) = _
    rw [hown]
    rfl

theorem toDataAll_nodes (vs : List Inline) (hvs : Inline.AllWritable vs) :
    Node.toDataAll (Inline.nodes vs) = .ok (Inline.toDataAll vs) := by
  match vs with
  | [] => rfl
  | v :: vs =>
    rw [Inline.nodes, Node.toDataAll, toData_node v hvs.1, toDataAll_nodes vs hvs.2]
    rfl

/-- The entries of a map are said as they are, when their keys differ from each other and from those
before. -/
theorem ownPairs_entryNodes (es : List (String × Inline)) (hes : Inline.EntriesWritable es)
    {seen : List Key} (hkeys : (es.map Prod.fst).Nodup)
    (hseen : ∀ k ∈ es.map Prod.fst, (Key.text k).isIn seen = false) :
    Node.ownPairs true seen (Inline.entryNodes es) = .ok (Inline.toPairs es) := by
  match es with
  | [] => rfl
  | (k, v) :: es =>
    obtain ⟨hk, hkeys⟩ := List.nodup_cons.1 hkeys
    obtain ⟨hnew, hseen⟩ := List.forall_mem_cons.1 hseen
    have hrest : Node.ownPairs true (.text k :: seen) (Inline.entryNodes es) =
        .ok (Inline.toPairs es) := by
      refine ownPairs_entryNodes es hes.2.2 hkeys fun k' hk' => ?_
      have hne : (Key.text k').same (.text k) = false := by
        rw [← Bool.not_eq_true, Key.same_text]
        rintro rfl
        exact hk hk'
      rw [Key.isIn, List.any_cons, hne]
      exact hseen k' hk'
    rw [Inline.entryNodes, Node.ownPairs, toData_node v hes.2.1]
    change (do
      if true && (Key.text k).isIn seen then throw Fault.repeatedKey
      return (Key.text k, v.toData) :: (← Node.ownPairs true (.text k :: seen) _)) = _
    rw [hnew, hrest]
    rfl

end

/-- **A written document says what was written.**  This holds of all entries with distinct keys;
without entries the document is empty and says nothing. -/
theorem read_written {es : List (String × Inline)} (hes : Inline.EntriesWritable es)
    (hkeys : (es.map Prod.fst).Nodup) :
    read (written es) = .ok (if es = [] then .null else .map (Inline.toPairs es)) := by
  by_cases hne : es = []
  · subst hne
    exact read_empty
  · have hnode : (Node.map (Inline.entryNodes es)).toData = .ok (.map (Inline.toPairs es)) :=
      toData_node (.map es) ⟨hkeys, hes⟩
    rw [if_neg hne, ← hnode]
    simp only [read, characters_written hes, tokensOf_lines hne hes, Node.ofTokens_lineTokens, bind,
      Except.bind]

end Yaml

open Yaml

/-! ## Contexts and configurations -/

/-- **A context that is written as a document is read as the context with its entries.** -/
theorem Context.ofDocument_written {es : List (String × Inline)} (hes : Inline.EntriesWritable es)
    (hkeys : (es.map Prod.fst).Nodup) :
    Context.ofDocument (written es) =
      (Context.ofPairs? (Inline.toPairs es)).mapError .refused := by
  rw [Context.ofDocument, read_written hes hkeys]
  by_cases hne : es = []
  · subst hne
    rfl
  · rw [if_neg hne]
    rfl

namespace Config

variable {c : Config}

/-- Settings with texts as tags can be shown when the limit does not have too many digits. -/
theorem not_isLong_settingsData {tags : List String} (h : c.limit < Text.digitBound) :
    ¬ (c.settingsData (tags.map .text)).IsLong := by
  have hkey (s : String) : ¬ (Key.text s).IsLong := by rintro ⟨⟩
  have htext (s : String) : ¬ (Data.text s).IsLong := by rintro ⟨⟩
  have hnull : ¬ Data.null.IsLong := by rintro ⟨⟩
  have hnumber : ¬ (Data.int c.limit).IsLong := by
    rintro ⟨hlong⟩
    exact Nat.not_le.2 h hlong
  have htags : ¬ (Data.list (tags.map .text)).IsLong := by
    simp [Data.isLong_list_iff, htext]
  have htruth : ¬ (Data.truth c.autoescape).IsLong := by rintro ⟨⟩
  cases hdoctype : c.doctype <;>
    simp [settingsData, hdoctype, Data.isLong_map_iff, hkey, htext, hnull, hnumber, htags, htruth]

/-- A configuration with texts as tags is there once it has been read. -/
theorem load_eq_ok {d : Data} {tags : List String} (hd : ofData d = .ok c)
    (htags : c.voidElements = tags.map .text) (hlimit : c.limit < Text.digitBound) :
    load d = .ok c := by
  have hshown : (c.settingsData ((Key.inOrder tags).map .text)).display? ≠ none :=
    mt (Data.display?_eq_none_iff _).1 (not_isLong_settingsData hlimit)
  obtain ⟨shown, hshown⟩ := Option.ne_none_iff_exists'.1 hshown
  have hline : c.logLine = .ok s!"Loaded renderer config: {shown}" := by
    simp only [logLine, toData_of_texts htags, bind, Except.bind, hshown]
    rfl
  rw [load, hd]
  change (do let _ ← c.logLine; return c) = _
  rw [hline]
  rfl

/-- A map without entries leaves the standard configuration. -/
theorem load_nil : load (.map []) = .ok standard :=
  load_eq_ok rfl rfl ((Text.length_digits_le_digitLimit_iff 64).1 (by decide))

/-- **Settings that are written as a document are read as they would be from a map.** -/
theorem ofDocument_written {es : List (String × Inline)} (hes : Inline.EntriesWritable es)
    (hkeys : (es.map Prod.fst).Nodup) :
    ofDocument (written es) = (load (.map (Inline.toPairs es))).mapError .refused := by
  rw [ofDocument, read_written hes hkeys]
  by_cases hne : es = []
  · subst hne
    exact (congrArg (Except.mapError DocumentError.refused) load_nil).symm
  · rw [if_neg hne]

/-- The settings of a configuration as they are written, with the tags without a body. -/
def entries (c : Config) (tags : List String) : List (String × Inline) :=
  [("doctype", match c.doctype with
      | some s => .text s
      | none => .word .null),
    ("recursion_limit", .word (.int c.limit)),
    ("void_elements", .list (tags.map .text)),
    ("autoescape", .word (.truth c.autoescape))]

/-- Whether the settings of a configuration can be written: its texts are on one line, and its limit
does not have too many digits. -/
structure IsWritable (c : Config) (tags : List String) : Prop where
  /-- What is written in front of a page is on one line. -/
  doctype : ∀ s ∈ c.doctype, IsLine s
  /-- The limit does not have too many digits. -/
  limit : c.limit < Text.digitBound
  /-- The tags are on one line. -/
  tags : ∀ s ∈ tags, IsLine s

theorem toDataAll_map_text (tags : List String) :
    Inline.toDataAll (tags.map .text) = tags.map .text := by
  induction tags with
  | nil => rfl
  | cons s tags ih => exact congrArg (Data.text s :: ·) ih

theorem allWritable_map_text {tags : List String} (h : ∀ s ∈ tags, IsLine s) :
    Inline.AllWritable (tags.map .text) := by
  induction tags with
  | nil => trivial
  | cons s tags ih =>
    obtain ⟨hs, htags⟩ := List.forall_mem_cons.1 h
    exact ⟨hs, ih htags⟩

/-- The entries say what the settings are as data. -/
theorem toPairs_entries (c : Config) (tags : List String) :
    Data.map (Inline.toPairs (c.entries tags)) = c.settingsData (tags.map .text) := by
  have htags := toDataAll_map_text tags
  cases hdoctype : c.doctype <;>
    simp [entries, settingsData, hdoctype, Inline.toPairs, Inline.toData, Word.toData, htags]

/-- The entries can be written when the settings can. -/
theorem IsWritable.entries {tags : List String} (h : c.IsWritable tags) :
    Inline.EntriesWritable (c.entries tags) := by
  refine ⟨by decide, ?_, by decide, h.limit, by decide, allWritable_map_text h.tags, by decide,
    trivial, trivial⟩
  cases hdoctype : c.doctype with
  | none => trivial
  | some s => exact h.doctype s hdoctype

/-- **A configuration that is written as a document is read from it again.**  Its tags without a
body may come in any order and may be repeated. -/
theorem ofDocument_entries {tags : List String} (htags : c.voidElements = tags.map .text)
    (h : c.IsWritable tags) :
    ∃ c', ofDocument (written (c.entries tags)) = .ok c' ∧ c'.sameAs c = true := by
  have hdistinct := Key.distinct_map_text tags
  refine ⟨{ c with voidElements := Key.distinct (tags.map .text) }, ?_, ?_⟩
  · rw [ofDocument_written h.entries (by simp [entries]), toPairs_entries,
      load_eq_ok (ofData_settingsData c tags) hdistinct h.limit]
    rfl
  · refine (sameAs_iff hdistinct htags).2 ⟨rfl, rfl, rfl, fun s => ?_⟩
    rw [List.mem_eraseDups]

end Config

end MarkupForms
