import OctreeWorld.Archive.Standard

/-!
# Manifests are read as they were written

A text in quotes is read back up to its closing quote, whatever characters it has, and a natural
number of at most 64 bits is read back up to the comma behind it. The lines of a manifest are made
of these, so a manifest is read as it was written.
-/

namespace OctreeWorld

namespace Json

variable {rest : List Char}

/-! ### Strings -/

theorem toList_quoted (s : String) :
    (quoted s).toList = '"' :: ((s.toList.flatMap fun c => (escape c).toList) ++ ['"']) := by
  have gathered (cs : List Char) (acc : String) :
      (cs.foldl (fun acc c => acc ++ escape c) acc).toList =
        acc.toList ++ cs.flatMap fun c => (escape c).toList := by
    induction cs generalizing acc with
    | nil => simp
    | cons c cs ih =>
      rw [List.foldl_cons, ih, String.toList_append, List.append_assoc, List.flatMap_cons]
  rw [quoted, String.toList_append, String.foldl_eq_foldl_toList, gathered]
  rfl

theorem readHex4?_digits {n : Nat} (small : n < 32) :
    readHex4? (Hex.digits 4 n ++ rest) = some (n, rest) := by
  have value (k : Nat) (h : k < 16) : Hex.value? (Hex.digit k) = some k := Hex.value_digit ⟨k, h⟩
  simp only [Hex.digits, List.nil_append, List.cons_append, readHex4?]
  rw [value _ (Nat.mod_lt _ (by decide)), value _ (Nat.mod_lt _ (by decide)),
    value _ (Nat.mod_lt _ (by decide)), value _ (Nat.mod_lt _ (by decide))]
  simp
  omega

theorem readUnit?_digits {n : Nat} (small : n < 32) :
    readUnit? (Hex.digits 4 n ++ rest) = some (some (Char.ofNat n), rest) := by
  rw [readUnit?, readHex4?_digits small]
  simp only [Option.bind_eq_bind, Option.bind_some]
  rw [if_neg (by omega), if_neg (by omega)]
  rfl

theorem readString?_plain {c : Char} (fuel : Nat) (acc : Option (List Char)) (quote : c ≠ '"')
    (backslash : c ≠ '\\') (plain : ¬ c.toNat < 32) :
    readString? (fuel + 1) acc (c :: rest) = readString? fuel (acc.map (c :: ·)) rest := by
  rw [readString?.eq_def]
  simp only [if_neg quote, if_neg backslash, if_neg plain]

theorem readString?_unit {cs : List Char} {c : Char} (fuel : Nat) (acc : Option (List Char))
    (unit : readUnit? cs = some (some c, rest)) :
    readString? (fuel + 1) acc ('\\' :: 'u' :: cs) = readString? fuel (acc.map (c :: ·)) rest := by
  rw [readString?.eq_def]
  simp only [if_neg (show ¬ '\\' = '"' by decide), if_true, unit]

/-- A written character is read back. -/
theorem readString?_escape (c : Char) (fuel : Nat) (acc : List Char) :
    readString? (fuel + 1) (some acc) ((escape c).toList ++ rest) =
      readString? fuel (some (c :: acc)) rest := by
  unfold escape
  split
  case h_6 quote backslash _ _ _ =>
    have self : Char.ofNat c.toNat = c := Char.ofNat_toNat c
    by_cases back : c.toNat = 8
    · rw [if_pos back, ← self, back]
      rfl
    · by_cases form : c.toNat = 12
      · rw [if_neg back, if_pos form, ← self, form]
        rfl
      · rw [if_neg back, if_neg form]
        by_cases control : c.toNat < 32
        · have unit : readUnit? (Hex.digits 4 c.toNat ++ rest) = some (some c, rest) := by
            rw [readUnit?_digits control, self]
          have written : ("\\u" ++ String.ofList (Hex.digits 4 c.toNat)).toList ++ rest =
              '\\' :: 'u' :: (Hex.digits 4 c.toNat ++ rest) := by simp
          rw [if_pos control, written, readString?_unit fuel (some acc) unit]
          rfl
        · rw [if_neg control, Char.toString, String.toList_singleton]
          rw [List.singleton_append, readString?_plain fuel (some acc) quote backslash control]
          rfl
  all_goals rfl

/-- The characters of a written string are read back up to its closing quote. -/
theorem readString?_written (cs : List Char) {fuel : Nat} (enough : cs.length < fuel)
    (acc : List Char) :
    readString? fuel (some acc) ((cs.flatMap fun c => (escape c).toList) ++ '"' :: rest) =
      some (some (String.ofList (acc.reverse ++ cs)), rest) := by
  obtain ⟨fuel, rfl⟩ : ∃ k, fuel = k + 1 := ⟨fuel - 1, by omega⟩
  induction cs generalizing acc fuel with
  | nil => simp [readString?]
  | cons c cs ih =>
    rw [List.length_cons] at enough
    obtain ⟨fuel, rfl⟩ : ∃ k, fuel = k + 1 := ⟨fuel - 1, by omega⟩
    rw [List.flatMap_cons, List.append_assoc, readString?_escape, ih _ _ (by omega),
      List.reverse_cons, List.append_assoc]
    rfl

theorem escape_ne_nil (c : Char) : (escape c).toList ≠ [] := by
  unfold escape
  split
  case h_6 =>
    split
    · decide
    · split
      · decide
      · split <;> simp [Char.toString]
  all_goals decide

theorem length_le_written (cs : List Char) :
    cs.length ≤ (cs.flatMap fun c => (escape c).toList).length := by
  induction cs with
  | nil => exact Nat.le_refl _
  | cons c cs ih =>
    have some := List.length_pos_iff.mpr (escape_ne_nil c)
    rw [List.flatMap_cons, List.length_append, List.length_cons]
    omega

theorem readString?_quoted (s : String) :
    ∃ cs, (quoted s).toList = '"' :: cs ∧ ∀ rest,
      readString? ((cs ++ rest).length + 1) (some []) (cs ++ rest) = some (some s, rest) := by
  refine ⟨_, toList_quoted s, fun rest => ?_⟩
  rw [List.append_assoc, List.singleton_append, readString?_written]
  · rw [List.reverse_nil, List.nil_append, String.ofList_toList]
  · have short := length_le_written s.toList
    simp only [List.length_append, List.length_cons]
    omega

theorem readValue?_quoted (fuel : Nat) (s : String) :
    readValue? (fuel + 1) (' ' :: ((quoted s).toList ++ rest)) = some (string s, rest) := by
  obtain ⟨cs, written, read⟩ := readString?_quoted s
  have skipped : skipBlanks (' ' :: '"' :: (cs ++ rest)) = '"' :: (cs ++ rest) := rfl
  rw [written, List.cons_append, readValue?, skipped]
  change (readString? ((cs ++ rest).length + 1) (some []) (cs ++ rest)).map _ = _
  rw [read]
  rfl

/-! ### Natural numbers -/

theorem isDigit_of_mem_toDigits {n : Nat} {c : Char} (among : c ∈ Nat.toDigits 10 n) :
    isDigit c = true := by
  have digit := Nat.isDigit_of_mem_toDigits (by decide) (by decide) among
  simp only [Char.isDigit, Bool.and_eq_true, decide_eq_true_eq] at digit
  simp only [isDigit, Bool.and_eq_true, decide_eq_true_eq]
  exact digit

theorem takeDigits_toDigits (n : Nat) (rest : List Char)
    (apart : ∀ c ∈ rest.head?, isDigit c = false) :
    takeDigits (Nat.toDigits 10 n ++ rest) = (Nat.toDigits 10 n, rest) := by
  have digits : ∀ c ∈ Nat.toDigits 10 n, isDigit c = true := fun c => isDigit_of_mem_toDigits
  rw [takeDigits, List.takeWhile_append_of_pos digits, List.dropWhile_append_of_pos digits]
  cases rest with
  | nil => simp
  | cons c cs =>
    have other : ¬ isDigit c = true := by simp [apart c rfl]
    rw [List.takeWhile_cons_of_neg other, List.dropWhile_cons_of_neg other, List.append_nil]

/-- Written digits start with a digit, which is no zero unless they are all of the number zero. -/
theorem toDigits_eq_cons (n : Nat) :
    ∃ d ds, Nat.toDigits 10 n = d :: ds ∧ isDigit d = true ∧ (d = '0' → n = 0) := by
  obtain ⟨d, ds, split⟩ := List.exists_cons_of_ne_nil (Nat.toDigits_ne_nil (n := n) (b := 10))
  refine ⟨d, ds, split, isDigit_of_mem_toDigits (split ▸ List.mem_cons_self), ?_⟩
  induction n using Nat.strongRecOn generalizing d ds with
  | ind n ih =>
    rintro rfl
    by_cases single : n < 10
    · rw [Nat.toDigits_of_lt_base single, List.cons.injEq] at split
      exact Nat.digitChar_eq_zero.mp split.1
    · obtain ⟨e, es, front⟩ :=
        List.exists_cons_of_ne_nil (Nat.toDigits_ne_nil (n := n / 10) (b := 10))
      rw [Nat.toDigits_of_base_le (by decide) (by omega), front, List.cons_append,
        List.cons.injEq] at split
      have := ih (n / 10) (by omega) e es front split.1
      omega

/-- Written digits are gathered as long as their number fits 64 bits. -/
theorem gather_of_fits (cs : List Char) (init taken : Nat)
    (fits : Nat.ofDigitChars 10 cs init < UInt64.size) :
    Numeric.gather cs init taken = (Nat.ofDigitChars 10 cs init, taken + cs.length, []) := by
  induction cs generalizing init taken with
  | nil => rfl
  | cons c cs ih =>
    rw [Nat.ofDigitChars_cons] at fits ⊢
    have grows : 10 * init + (c.toNat - 48) ≤
        Nat.ofDigitChars 10 cs (10 * init + (c.toNat - 48)) := by
      rw [Nat.ofDigitChars_eq_ofDigitChars_zero]
      exact Nat.le_add_right_of_le (Nat.le_mul_of_pos_left _ (Nat.pow_pos (by decide)))
    rw [Numeric.gather]
    have next : 10 * init + (c.toNat - 48) < UInt64.size := Nat.lt_of_le_of_lt grows fits
    rw [if_pos next, ih (10 * init + (c.toNat - 48)) _ fits, List.length_cons, Nat.add_right_comm]
    rfl

theorem ofLiteral?_toString {n : Nat} (fits : n < UInt64.size) :
    Numeric.ofLiteral? (toString n) = some (.natural (UInt64.ofNat n)) := by
  obtain ⟨d, ds, split, digit, -⟩ := toDigits_eq_cons n
  have unsigned : (Nat.toDigits 10 n).head? ≠ some '-' := by
    rw [split, List.head?_cons]
    rintro ⟨⟩
    cases digit
  have taken := takeDigits_toDigits n [] nofun
  rw [List.append_nil] at taken
  have apart : Numeric.parts (toString n) = ⟨false, Nat.toDigits 10 n, none, none⟩ := by
    rw [Numeric.parts, Nat.toString_eq_repr, Nat.toList_repr]
    simp only [beq_eq_false_iff_ne.mpr unsigned, Bool.false_eq_true, if_false, taken]
  have worth : Nat.ofDigitChars 10 (Nat.toDigits 10 n) 0 = n := Nat.ofDigitChars_ten_toDigits
  rw [Numeric.ofLiteral?, apart, Numeric.ofParts?, gather_of_fits _ _ _ (by rwa [worth]), worth]
  rfl

theorem readWhole?_toDigits (n : Nat) (rest : List Char) :
    readWhole? (Nat.toDigits 10 n ++ ',' :: rest) = some (Nat.toDigits 10 n, ',' :: rest) := by
  obtain ⟨d, ds, split, -, leading⟩ := toDigits_eq_cons n
  by_cases zero : d = '0'
  · rw [leading zero]
    rfl
  · have taken := takeDigits_toDigits n (',' :: rest) (by rintro _ ⟨⟩; rfl)
    rw [split, List.cons_append] at taken ⊢
    rw [readWhole?]
    · rw [taken]
      rfl
    · rintro tail ⟨⟩
      exact zero rfl

theorem readNumber?_toDigits (n : Nat) (rest : List Char) :
    readNumber? (Nat.toDigits 10 n ++ ',' :: rest) = some (ofNat n, ',' :: rest) := by
  obtain ⟨d, ds, split, digit, -⟩ := toDigits_eq_cons n
  have unsigned : d ≠ '-' := by
    rintro rfl
    cases digit
  have whole := readWhole?_toDigits n rest
  rw [ofNat, Nat.toString_eq_ofList_toDigits]
  rw [split, List.cons_append] at whole ⊢
  rw [readNumber?]
  · simp only [Option.bind_eq_bind, whole, Option.bind_some]
    simp [readFraction?, readExponent?]
  · rintro tail ⟨⟩
    exact unsigned rfl

theorem isBlank_of_isDigit {c : Char} (digit : isDigit c = true) : isBlank c = false := by
  refine Bool.eq_false_iff.mpr fun blank => ?_
  simp only [isBlank, Bool.or_eq_true, beq_iff_eq] at blank
  rcases blank with ((rfl | rfl) | rfl) | rfl <;> cases digit

theorem readValue?_ofNat (fuel n : Nat) :
    readValue? (fuel + 1) (' ' :: ((toString n).toList ++ ',' :: rest)) =
      some (ofNat n, ',' :: rest) := by
  have read := readNumber?_toDigits n rest
  obtain ⟨d, ds, split, digit, -⟩ := toDigits_eq_cons n
  rw [Nat.toString_eq_repr, Nat.toList_repr]
  rw [split, List.cons_append] at read ⊢
  have skipped : skipBlanks (' ' :: d :: (ds ++ ',' :: rest)) = d :: (ds ++ ',' :: rest) := by
    rw [skipBlanks, List.dropWhile_cons_of_pos rfl,
      List.dropWhile_cons_of_neg (by simp [isBlank_of_isDigit digit])]
  rw [readValue?, skipped]
  dsimp only
  split
  case h_7 => exact read
  all_goals
    rename_i start
    cases start
    cases digit

/-! ### Members -/

theorem skipBlanks_quoted (name : String) (rest : List Char) :
    skipBlanks ((quoted name).toList ++ rest) = (quoted name).toList ++ rest := by
  rw [toList_quoted]
  rfl

theorem skipBlanks_indented (name : String) (rest : List Char) :
    skipBlanks ('\n' :: ' ' :: ' ' :: ((quoted name).toList ++ rest)) =
      (quoted name).toList ++ rest := by
  rw [toList_quoted]
  rfl

section Members

variable {name : String} {fuel : Nat} {acc : List (Option String × Json)}
  {cs tail after : List Char} {v : Json}

/-- A member with a comma behind it is read, and then the members after it. -/
theorem readMembers?_more (start : skipBlanks cs = (quoted name).toList ++ ':' :: tail)
    (value : readValue? fuel tail = some (v, ',' :: rest)) :
    readMembers? (fuel + 1) acc cs = readMembers? fuel ((some name, v) :: acc) rest := by
  obtain ⟨written, same, read⟩ := readString?_quoted name
  have colon : skipBlanks (':' :: tail) = ':' :: tail := rfl
  have comma : skipBlanks (',' :: rest) = ',' :: rest := rfl
  rw [same, List.cons_append] at start
  rw [readMembers?, start]
  simp only [read, colon, value, comma]

/-- A member with the closing brace behind it is the last one. -/
theorem readMembers?_last (start : skipBlanks cs = (quoted name).toList ++ ':' :: tail)
    (value : readValue? fuel tail = some (v, after)) (shut : skipBlanks after = '\x7d' :: rest) :
    readMembers? (fuel + 1) acc cs = some (object ((some name, v) :: acc).reverse, rest) := by
  obtain ⟨written, same, read⟩ := readString?_quoted name
  have colon : skipBlanks (':' :: tail) = ':' :: tail := rfl
  rw [same, List.cons_append] at start
  rw [readMembers?, start]
  simp only [read, colon, value, shut]

end Members

theorem readValue?_members {fuel : Nat} {name : String} {cs tail : List Char}
    (start : skipBlanks cs = (quoted name).toList ++ tail) :
    readValue? (fuel + 1) ('\x7b' :: cs) = readMembers? fuel [] ((quoted name).toList ++ tail) := by
  have brace : skipBlanks ('\x7b' :: cs) = '\x7b' :: cs := rfl
  rw [toList_quoted, List.cons_append] at start ⊢
  rw [readValue?, brace]
  simp only [start]
  rfl

theorem natural?_ofNat {bound n : Nat} (fits : n < UInt64.size) (bounded : n ≤ bound) :
    natural? bound (ofNat n) = some n := by
  have same : (UInt64.ofNat n).toNat = n := UInt64.toNat_ofNat_of_lt' fits
  simp only [natural?, ofNat, numeric?, ofLiteral?_toString fits, same, if_pos bounded]

end Json

namespace ArchiveManifest

open Json

theorem toList_text (m : ArchiveManifest) :
    m.text.toList = '\x7b' :: '\n' :: ' ' :: ' ' :: ((quoted "schema_version").toList ++
      ':' :: ' ' :: ((toString m.schemaVersion.toNat).toList ++
      ',' :: '\n' :: ' ' :: ' ' :: ((quoted "record_count").toList ++
      ':' :: ' ' :: ((toString m.recordCount.toNat).toList ++
      ',' :: '\n' :: ' ' :: ' ' :: ((quoted "sha256").toList ++
      ':' :: ' ' :: ((quoted m.digest).toList ++ ['\n', '\x7d'])))))) := by
  have opening : "\x7b\n  \"schema_version\": ".toList =
      ['\x7b', '\n', ' ', ' '] ++ ((quoted "schema_version").toList ++ [':', ' ']) := by
    rw [toList_quoted]
    rfl
  have second : ",\n  \"record_count\": ".toList =
      [',', '\n', ' ', ' '] ++ ((quoted "record_count").toList ++ [':', ' ']) := by
    rw [toList_quoted]
    rfl
  have third : ",\n  \"sha256\": ".toList =
      [',', '\n', ' ', ' '] ++ ((quoted "sha256").toList ++ [':', ' ']) := by
    rw [toList_quoted]
    rfl
  have closing : "\n\x7d".toList = ['\n', '\x7d'] := rfl
  unfold ArchiveManifest.text
  simp only [String.toList_append, opening, second, third, closing, List.append_assoc,
    List.cons_append, List.nil_append]

/-- The value that the text of a manifest writes. -/
def json (m : ArchiveManifest) : Json :=
  .ofMembers
    [("schema_version", .ofNat m.schemaVersion.toNat),
      ("record_count", .ofNat m.recordCount.toNat), ("sha256", .string m.digest)]

theorem json_of_text (m : ArchiveManifest) : Json.read? m.text = some m.json := by
  have written := toList_text m
  obtain ⟨fuel, enough⟩ : ∃ fuel, m.text.toList.length = fuel + 4 := by
    rw [written]
    exact ⟨_, rfl⟩
  have read : readValue? (m.text.toList.length + 1) m.text.toList = some (m.json, []) := by
    rw [enough, written, readValue?_members (skipBlanks_indented _ _),
      readMembers?_more (skipBlanks_quoted _ _) (readValue?_ofNat _ _),
      readMembers?_more (skipBlanks_indented _ _) (readValue?_ofNat _ _),
      readMembers?_last (skipBlanks_indented _ _) (readValue?_quoted _ _) rfl]
    rfl
  simp only [Json.read?, read]
  rfl

theorem ofJson?_json (m : ArchiveManifest) : ofJson? m.json = some m := by
  have fields : Json.fields? fieldNames m.json =
      some [("schema_version", .ofNat m.schemaVersion.toNat),
        ("record_count", .ofNat m.recordCount.toNat), ("sha256", .string m.digest)] := rfl
  have schema : format.uint32? (.ofNat m.schemaVersion.toNat) = some m.schemaVersion := by
    have bound : m.schemaVersion.toNat < 4294967296 := m.schemaVersion.toNat_lt
    have fits : m.schemaVersion.toNat < UInt64.size := Nat.lt_trans bound (by decide)
    have read := natural?_ofNat fits (show _ ≤ 4294967295 by omega)
    rw [DataFormat.uint32?, show format.natural? = natural? from rfl, read, Option.map_some,
      UInt32.ofNat_toNat]
  have count : format.uint64? (.ofNat m.recordCount.toNat) = some m.recordCount := by
    have bound : m.recordCount.toNat < 18446744073709551616 := m.recordCount.toNat_lt
    have read := natural?_ofNat bound (show _ ≤ 18446744073709551615 by omega)
    rw [DataFormat.uint64?, show format.natural? = natural? from rfl, read, Option.map_some,
      UInt64.ofNat_toNat]
  have lookups (a b c : Json) :
      [("schema_version", a), ("record_count", b), ("sha256", c)].lookup "schema_version" = some a ∧
      [("schema_version", a), ("record_count", b), ("sha256", c)].lookup "record_count" = some b ∧
      [("schema_version", a), ("record_count", b), ("sha256", c)].lookup "sha256" = some c :=
    ⟨rfl, rfl, rfl⟩
  unfold ofJson?
  rw [fields]
  simp only [Option.bind_eq_bind, Option.bind_some, lookups, schema, count]
  rfl

/-- What is written into a manifest is read back from it. -/
theorem read?_text (m : ArchiveManifest) : ArchiveManifest.read? m.text = some m := by
  rw [ArchiveManifest.read?, json_of_text, Option.bind_some, ofJson?_json]

theorem encoding_lossless : encoding.Lossless := by
  intro m
  simp only [Encoding.Keeps, encoding, read?_text]

end ArchiveManifest

end OctreeWorld
