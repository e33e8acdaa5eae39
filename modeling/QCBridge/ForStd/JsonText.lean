import Mathlib.Data.List.Basic
import Mathlib.Data.Char

/-!
# JSON

The writer and the reader of Python's `json`, on characters. The writer puts no blanks, and
everything but printable ASCII as `\u` escapes, a character above the first 65536 as the two of
a surrogate pair. The reader takes any JSON text; a number is kept as it is written, and a
surrogate that is not one of a pair is no character.

What the writer makes of a value, the reader reads back.
-/

namespace QCBridge

/-- A JSON value. -/
inductive JsonValue where
  | null
  | bool (b : Bool)
  | num (lexeme : List Char)
  | str (s : List Char)
  | arr (items : List JsonValue)
  | obj (fields : List (List Char × JsonValue))

namespace JsonValue

/-! ## Writing -/

/-- A hexadecimal digit. -/
def hexDigit (n : Nat) : Char := Char.ofNat (if n < 10 then 0x30 + n else 0x57 + n)

/-- A `\u` escape. -/
def escapeUnit (n : Nat) : List Char :=
  ['\\', 'u', hexDigit (n / 4096), hexDigit (n / 256 % 16), hexDigit (n / 16 % 16),
    hexDigit (n % 16)]

/-- The characters with an escape of their own, and its letter. -/
def shortEscapes : List (Char × Char) :=
  [('"', '"'), ('\\', '\\'), ('\n', 'n'), ('\r', 'r'), ('\t', 't'), (Char.ofNat 12, 'f'),
    (Char.ofNat 8, 'b')]

/-- A character in a text. -/
def escapeChar (c : Char) : List Char :=
  match shortEscapes.find? (·.1 = c) with
  | some e => ['\\', e.2]
  | none =>
    if 0x20 ≤ c.toNat ∧ c.toNat ≤ 0x7e then [c]
    else if c.toNat < 0x10000 then escapeUnit c.toNat
    else
      escapeUnit (0xd800 + (c.toNat - 0x10000) / 0x400) ++
        escapeUnit (0xdc00 + (c.toNat - 0x10000) % 0x400)

/-- A text, in quotes. -/
def dumpsStr (s : List Char) : List Char := '"' :: (s.flatMap escapeChar ++ ['"'])

mutual

/-- `json.dumps` without blanks. -/
def dumps : JsonValue → List Char
  | null => ['n', 'u', 'l', 'l']
  | bool true => ['t', 'r', 'u', 'e']
  | bool false => ['f', 'a', 'l', 's', 'e']
  | num lexeme => lexeme
  | str s => dumpsStr s
  | arr [] => ['[', ']']
  | arr (v :: vs) => '[' :: (dumps v ++ dumpsItems vs)
  | obj [] => ['\x7b', '\x7d']
  | obj ((k, v) :: fs) => '\x7b' :: (dumpsStr k ++ ':' :: (dumps v ++ dumpsFields fs))

/-- The items that follow the first, and the end of the array. -/
def dumpsItems : List JsonValue → List Char
  | [] => [']']
  | v :: vs => ',' :: (dumps v ++ dumpsItems vs)

/-- The fields that follow the first, and the end of the object. -/
def dumpsFields : List (List Char × JsonValue) → List Char
  | [] => ['\x7d']
  | (k, v) :: fs => ',' :: (dumpsStr k ++ ':' :: (dumps v ++ dumpsFields fs))

end

/-! ## Reading -/

/-- Blanks between the parts of a text. -/
def skipBlanks (s : List Char) : List Char :=
  s.dropWhile fun c => c == ' ' || c == '\t' || c == '\n' || c == '\r'

/-- The value of a hexadecimal digit. -/
def hexValue (c : Char) : Option Nat :=
  let n := c.toNat
  if 0x30 ≤ n ∧ n ≤ 0x39 then some (n - 0x30)
  else if 0x61 ≤ n ∧ n ≤ 0x66 then some (n - 0x57)
  else if 0x41 ≤ n ∧ n ≤ 0x46 then some (n - 0x37)
  else none

/-- The four digits of a `\u` escape. -/
def hexUnit (a b c d : Char) : Option Nat :=
  match hexValue a, hexValue b, hexValue c, hexValue d with
  | some a, some b, some c, some d => some (((a * 16 + b) * 16 + c) * 16 + d)
  | _, _, _, _ => none

/-- A surrogate, the first or the second of a pair. -/
def isHigh (n : Nat) : Bool := 0xd800 ≤ n && n < 0xdc00

def isLow (n : Nat) : Bool := 0xdc00 ≤ n && n < 0xe000

/-- A text, from behind the opening quote. -/
def readStr : List Char → Option (List Char × List Char)
  | [] => none
  | '"' :: s => some ([], s)
  | '\\' :: 'u' :: a :: b :: c :: d :: s =>
    match hexUnit a b c d with
    | none => none
    | some unit =>
      if isHigh unit then
        match s with
        | '\\' :: 'u' :: a' :: b' :: c' :: d' :: s =>
          match hexUnit a' b' c' d' with
          | none => none
          | some low =>
            if isLow low then
              (readStr s).map fun r =>
                (Char.ofNat (0x10000 + (unit - 0xd800) * 0x400 + (low - 0xdc00)) :: r.1, r.2)
            else none
        | _ => none
      else if isLow unit then none
      else (readStr s).map fun r => (Char.ofNat unit :: r.1, r.2)
  | '\\' :: e :: s =>
    match shortEscapes.find? (·.2 = e) with
    | some x => (readStr s).map fun r => (x.1 :: r.1, r.2)
    | none => if e = '/' then (readStr s).map fun r => ('/' :: r.1, r.2) else none
  | c :: s => if c.toNat < 0x20 ∨ c = '\\' then none else (readStr s).map fun r => (c :: r.1, r.2)

/-- The text starts with the word. -/
def readWord (word : List Char) (s : List Char) : Option (List Char) :=
  if word.isPrefixOf s then some (s.drop word.length) else none

/-- Digits, one or more, behind what the text starts with; nothing if they are missing. -/
def readDigitsAfter (lead : List Char) (s : List Char) : List Char × List Char :=
  let digits := s.takeWhile Char.isDigit
  if digits = [] then ([], lead ++ s) else (lead ++ digits, s.drop digits.length)

/-- The fraction of a number, if there is one. -/
def readFraction : List Char → List Char × List Char
  | '.' :: s => readDigitsAfter ['.'] s
  | s => ([], s)

/-- The exponent of a number, if there is one. -/
def readExponent : List Char → List Char × List Char
  | e :: sign :: s =>
    if (e = 'e' ∨ e = 'E') ∧ (sign = '+' ∨ sign = '-') then readDigitsAfter [e, sign] s
    else if e = 'e' ∨ e = 'E' then readDigitsAfter [e] (sign :: s)
    else ([], e :: sign :: s)
  | s => ([], s)

/-- A number without its sign: no zero in front of another digit. -/
def readUnsigned : List Char → Option (List Char × List Char)
  | '0' :: s => some (['0'], s)
  | c :: s => if c.isDigit then some ((c :: s).span Char.isDigit) else none
  | [] => none

/-- A number, or one of the words that Python reads as one. -/
def readNum (s : List Char) : Option (List Char × List Char) :=
  let (sign, body) := match s with
    | '-' :: s => (['-'], s)
    | s => ([], s)
  match readWord ['I', 'n', 'f', 'i', 'n', 'i', 't', 'y'] body with
  | some s => some (sign ++ ['I', 'n', 'f', 'i', 'n', 'i', 't', 'y'], s)
  | none =>
    match readWord ['N', 'a', 'N'] s with
    | some s => some (['N', 'a', 'N'], s)
    | none =>
      (readUnsigned body).map fun (whole, s) =>
        let (fraction, s) := readFraction s
        let (exponent, s) := readExponent s
        (sign ++ whole ++ fraction ++ exponent, s)

/-- A value that is neither a text nor a list nor an object. -/
def readAtom (s : List Char) : Option (JsonValue × List Char) :=
  match readWord ['n', 'u', 'l', 'l'] s with
  | some s => some (null, s)
  | none =>
    match readWord ['t', 'r', 'u', 'e'] s with
    | some s => some (bool true, s)
    | none =>
      match readWord ['f', 'a', 'l', 's', 'e'] s with
      | some s => some (bool false, s)
      | none => (readNum s).map fun r => (num r.1, r.2)

mutual

/-- A value. Every call takes a character off the text, so its length is fuel enough. -/
def readValue : Nat → List Char → Option (JsonValue × List Char)
  | 0, _ => none
  | fuel + 1, s =>
    match s with
    | '"' :: s => (readStr s).map fun r => (str r.1, r.2)
    | '[' :: s =>
      match skipBlanks s with
      | ']' :: s => some (arr [], s)
      | s => (readItems fuel s).map fun r => (arr r.1, r.2)
    | '\x7b' :: s =>
      match skipBlanks s with
      | '\x7d' :: s => some (obj [], s)
      | s => (readFields fuel s).map fun r => (obj r.1, r.2)
    | s => readAtom s

/-- The items of an array, to its end. -/
def readItems : Nat → List Char → Option (List JsonValue × List Char)
  | 0, _ => none
  | fuel + 1, s =>
    match readValue fuel s with
    | none => none
    | some (v, s) =>
      match skipBlanks s with
      | ']' :: s => some ([v], s)
      | ',' :: s => (readItems fuel (skipBlanks s)).map fun r => (v :: r.1, r.2)
      | _ => none

/-- The fields of an object, to its end. -/
def readFields : Nat → List Char → Option (List (List Char × JsonValue) × List Char)
  | 0, _ => none
  | fuel + 1, s =>
    match s with
    | '"' :: s =>
      match readStr s with
      | none => none
      | some (k, s) =>
        match skipBlanks s with
        | ':' :: s =>
          match readValue fuel (skipBlanks s) with
          | none => none
          | some (v, s) =>
            match skipBlanks s with
            | '\x7d' :: s => some ([(k, v)], s)
            | ',' :: s => (readFields fuel (skipBlanks s)).map fun r => ((k, v) :: r.1, r.2)
            | _ => none
        | _ => none
    | _ => none

end

/-- `json.loads`. -/
def loads (text : List Char) : Option JsonValue :=
  match readValue (text.length + 1) (skipBlanks text) with
  | some (v, s) => if skipBlanks s = [] then some v else none
  | none => none

/-! ## What is written is read -/

private theorem hexValue_hexDigit : ∀ n < 16, hexValue (hexDigit n) = some n := by decide

private theorem hexUnit_digits {n : Nat} (hn : n < 0x10000) :
    hexUnit (hexDigit (n / 4096)) (hexDigit (n / 256 % 16)) (hexDigit (n / 16 % 16))
      (hexDigit (n % 16)) = some n := by
  unfold hexUnit
  rw [hexValue_hexDigit _ (by omega), hexValue_hexDigit _ (by omega),
    hexValue_hexDigit _ (by omega), hexValue_hexDigit _ (by omega)]
  simp only [Option.some.injEq]
  omega

/-- A character is not a surrogate. -/
private theorem not_surrogate (c : Char) : isHigh c.toNat = false ∧ isLow c.toNat = false := by
  have hvalid := c.valid
  unfold isHigh isLow
  simp only [Bool.and_eq_false_iff, decide_eq_false_iff_not]
  rcases hvalid with hlow | hhigh
  · have : c.toNat < 0xd800 := hlow
    omega
  · have : 0xdfff < c.toNat := hhigh.1
    omega

theorem toNat_lt (c : Char) : c.toNat < 0x110000 := by
  rcases c.valid with hlow | hhigh
  · have : c.toNat < 0xd800 := hlow
    omega
  · exact hhigh.2

private theorem readStr_unit {n : Nat} (hn : n < 0x10000) (hhigh : isHigh n = false)
    (hlow : isLow n = false) (s : List Char) :
    readStr (escapeUnit n ++ s) = (readStr s).map fun r => (Char.ofNat n :: r.1, r.2) := by
  unfold escapeUnit
  simp only [List.cons_append, List.nil_append]
  rw [readStr]
  simp only [hexUnit_digits hn, hhigh, hlow, Bool.false_eq_true, if_false]

private theorem readStr_pair {n : Nat} (hn : 0x10000 ≤ n) (hlt : n < 0x110000) (s : List Char) :
    readStr (escapeUnit (0xd800 + (n - 0x10000) / 0x400) ++
        (escapeUnit (0xdc00 + (n - 0x10000) % 0x400) ++ s)) =
      (readStr s).map fun r => (Char.ofNat n :: r.1, r.2) := by
  have hhigh : isHigh (0xd800 + (n - 0x10000) / 0x400) = true := by
    unfold isHigh
    simp only [Bool.and_eq_true, decide_eq_true_eq]
    omega
  have hlow : isLow (0xdc00 + (n - 0x10000) % 0x400) = true := by
    unfold isLow
    simp only [Bool.and_eq_true, decide_eq_true_eq]
    omega
  have hjoin : 0x10000 + (0xd800 + (n - 0x10000) / 0x400 - 0xd800) * 0x400 +
      (0xdc00 + (n - 0x10000) % 0x400 - 0xdc00) = n := by omega
  unfold escapeUnit
  simp only [List.cons_append, List.nil_append]
  rw [readStr, hexUnit_digits (by omega)]
  simp only [hhigh, if_true]
  rw [hexUnit_digits (by omega)]
  simp only [hlow, if_true, hjoin]

/-- A character that stands for itself. -/
private theorem readStr_plain {c : Char} (hquote : c ≠ '"') (hslash : c ≠ '\\')
    (hlow : 0x20 ≤ c.toNat)
    (s : List Char) : readStr (c :: s) = (readStr s).map fun r => (c :: r.1, r.2) := by
  rw [readStr.eq_def]
  split
  next heq => cases heq
  next heq => exact absurd (List.cons.inj heq).1 hquote
  next heq => exact absurd (List.cons.inj heq).1 hslash
  next heq => exact absurd (List.cons.inj heq).1 hslash
  next heq =>
    obtain ⟨rfl, rfl⟩ := List.cons.inj heq
    rw [if_neg]
    rintro (hsmall | heq)
    · omega
    · exact hslash heq

/-- One character of a text. -/
private theorem readStr_escapeChar (c : Char) (s : List Char) :
    readStr (escapeChar c ++ s) = (readStr s).map fun r => (c :: r.1, r.2) := by
  unfold escapeChar
  split
  -- one of the short escapes
  next e hfind =>
    have hmem := List.mem_of_find?_eq_some hfind
    have hc : e.1 = c := by simpa using List.find?_some hfind
    subst hc
    simp only [shortEscapes, List.mem_cons, List.not_mem_nil, or_false] at hmem
    rcases hmem with rfl | rfl | rfl | rfl | rfl | rfl | rfl <;> rfl
  next hnone =>
    split
    -- a plain character is neither a quote nor a backslash, which have short escapes
    next hplain =>
      have hquote : c ≠ '"' := by
        rintro rfl
        exact absurd hnone (by decide)
      have hslash : c ≠ '\\' := by
        rintro rfl
        exact absurd hnone (by decide)
      exact readStr_plain hquote hslash hplain.1 s
    next hnot =>
      split
      -- one unit in hexadecimal, which is no surrogate
      next hunit =>
        rw [readStr_unit hunit (not_surrogate c).1 (not_surrogate c).2, Char.ofNat_toNat]
      -- two surrogates
      next hpair =>
        rw [List.append_assoc, readStr_pair (by omega) (toNat_lt c), Char.ofNat_toNat]

/-- A text, to its closing quote. -/
private theorem readStr_dumpsStr (text s : List Char) :
    readStr (text.flatMap escapeChar ++ '"' :: s) = some (text, s) := by
  induction text with
  | nil => rfl
  | cons c text ih =>
    rw [List.flatMap_cons, List.append_assoc, readStr_escapeChar, ih]
    rfl

mutual

/-- A value without numbers. -/
def plain : JsonValue → Bool
  | num _ => false
  | arr vs => plainItems vs
  | obj fs => plainFields fs
  | _ => true

def plainItems : List JsonValue → Bool
  | [] => true
  | v :: vs => plain v && plainItems vs

def plainFields : List (List Char × JsonValue) → Bool
  | [] => true
  | (_, v) :: fs => plain v && plainFields fs

end

/-- What a value starts with: no blank, and not the end of an array. -/
private theorem dumps_head {v : JsonValue} (hv : plain v) :
    ∃ c s, dumps v = c :: s ∧ c ∈ ['n', 't', 'f', '"', '[', '\x7b'] := by
  cases v with
  | null => exact ⟨'n', _, rfl, by decide⟩
  | bool b =>
    cases b with
    | true => exact ⟨'t', _, rfl, by decide⟩
    | false => exact ⟨'f', _, rfl, by decide⟩
  | num lexeme => cases hv
  | str s => exact ⟨'"', _, rfl, by decide⟩
  | arr items =>
    cases items with
    | nil => exact ⟨'[', _, rfl, by decide⟩
    | cons v vs => exact ⟨'[', _, rfl, by decide⟩
  | obj fields =>
    cases fields with
    | nil => exact ⟨'\x7b', _, rfl, by decide⟩
    | cons f fs => exact ⟨'\x7b', _, rfl, by decide⟩

private theorem skipBlanks_dumps {v : JsonValue} (hv : plain v) (s : List Char) :
    skipBlanks (dumps v ++ s) = dumps v ++ s := by
  obtain ⟨c, s', hdumps, hc⟩ := dumps_head hv
  rw [hdumps]
  simp only [List.mem_cons, List.not_mem_nil, or_false] at hc
  rcases hc with rfl | rfl | rfl | rfl | rfl | rfl <;> rfl

/-- An array with an item is read item by item. -/
private theorem readValue_arr {v : JsonValue} (hv : plain v) (fuel : Nat) (s : List Char) :
    readValue (fuel + 1) ('[' :: (dumps v ++ s)) =
      (readItems fuel (dumps v ++ s)).map fun r => (arr r.1, r.2) := by
  have hblanks := skipBlanks_dumps hv s
  obtain ⟨c, s', hdumps, hc⟩ := dumps_head hv
  rw [readValue.eq_def]
  simp only
  rw [hblanks, hdumps]
  simp only [List.mem_cons, List.not_mem_nil, or_false] at hc
  rcases hc with rfl | rfl | rfl | rfl | rfl | rfl <;> rfl

/-- A field starts with its key. -/
private theorem readFields_key (k : List Char) (fuel : Nat) (s : List Char) :
    readFields (fuel + 1) (dumpsStr k ++ ':' :: s) =
      match readValue fuel (skipBlanks s) with
      | none => none
      | some (v, s) =>
        match skipBlanks s with
        | '\x7d' :: s => some ([(k, v)], s)
        | ',' :: s => (readFields fuel (skipBlanks s)).map fun r => ((k, v) :: r.1, r.2)
        | _ => none := by
  unfold dumpsStr
  rw [readFields.eq_def]
  simp only [List.cons_append, List.append_assoc, List.nil_append]
  rw [readStr_dumpsStr]
  rfl

mutual

/-- A value, whatever follows. -/
private theorem readValue_dumps : ∀ (v : JsonValue) (fuel : Nat) (s : List Char), plain v →
    (dumps v).length ≤ fuel → readValue fuel (dumps v ++ s) = some (v, s)
  | v, 0, s, hv, hfuel => by
    -- with no fuel: the text is not empty
    obtain ⟨c, s', hdumps, -⟩ := dumps_head hv
    rw [hdumps] at hfuel
    cases hfuel
  | null, fuel + 1, s, _, _ => rfl
  | bool true, fuel + 1, s, _, _ => rfl
  | bool false, fuel + 1, s, _, _ => rfl
  | num _, fuel + 1, s, hv, _ => by cases hv
  | str text, fuel + 1, s, _, _ => by
    unfold dumps dumpsStr
    rw [List.cons_append, List.append_assoc, readValue]
    simp only [List.cons_append, List.nil_append]
    rw [readStr_dumpsStr]
    rfl
  | arr [], fuel + 1, s, _, _ => rfl
  | arr (v :: vs), fuel + 1, s, hv, hfuel => by
    -- the first item, and then the others
    unfold plain plainItems at hv
    rw [Bool.and_eq_true] at hv
    unfold dumps at hfuel ⊢
    rw [List.length_cons, List.length_append] at hfuel
    rw [List.cons_append, List.append_assoc, readValue_arr hv.1,
      readItems_dumps v vs fuel s hv.1 hv.2 (by omega)]
    rfl
  | obj [], fuel + 1, s, _, _ => rfl
  | obj ((k, v) :: fs), fuel + 1, s, hv, hfuel => by
    -- the first field, and then the others
    unfold plain plainFields at hv
    rw [Bool.and_eq_true] at hv
    unfold dumps at hfuel ⊢
    rw [List.length_cons] at hfuel
    have hfields := readFields_dumps k v fs fuel s hv.1 hv.2 (by omega)
    rw [readValue.eq_def]
    simp only [List.cons_append, List.append_assoc]
    show (readFields fuel (dumpsStr k ++ ':' :: (dumps v ++ (dumpsFields fs ++ s)))).map _ = _
    rw [hfields]
    rfl

/-- The items of an array, to its end. -/
private theorem readItems_dumps :
    ∀ (v : JsonValue) (vs : List JsonValue) (fuel : Nat) (s : List Char),
    plain v → plainItems vs → (dumps v).length + (dumpsItems vs).length ≤ fuel →
    readItems fuel (dumps v ++ (dumpsItems vs ++ s)) = some (v :: vs, s)
  | v, vs, 0, s, hv, _, hfuel => by
    obtain ⟨c, s', hdumps, -⟩ := dumps_head hv
    rw [hdumps, List.length_cons] at hfuel
    omega
  | v, [], fuel + 1, s, hv, _, hfuel => by
    unfold dumpsItems at hfuel ⊢
    rw [readItems, readValue_dumps v fuel _ hv (by simpa using hfuel)]
    rfl
  | v, v' :: vs, fuel + 1, s, hv, hvs, hfuel => by
    unfold plainItems at hvs
    rw [Bool.and_eq_true] at hvs
    unfold dumpsItems at hfuel ⊢
    rw [List.length_cons, List.length_append] at hfuel
    rw [readItems, readValue_dumps v fuel _ hv (by omega)]
    simp only [List.cons_append, List.append_assoc]
    have hnext := readItems_dumps v' vs fuel s hvs.1 hvs.2 (by omega)
    show (readItems fuel (skipBlanks (dumps v' ++ (dumpsItems vs ++ s)))).map _ = _
    rw [skipBlanks_dumps hvs.1, hnext]
    rfl

/-- The fields of an object, to its end. -/
private theorem readFields_dumps :
    ∀ (k : List Char) (v : JsonValue) (fs : List (List Char × JsonValue))
    (fuel : Nat) (s : List Char), plain v → plainFields fs →
    (dumpsStr k ++ ':' :: (dumps v ++ dumpsFields fs)).length ≤ fuel →
    readFields fuel (dumpsStr k ++ ':' :: (dumps v ++ (dumpsFields fs ++ s))) =
      some ((k, v) :: fs, s)
  | k, v, fs, 0, s, _, _, hfuel => by
    -- with no fuel: the text is not empty
    rw [List.length_append, List.length_cons] at hfuel
    omega
  | k, v, [], fuel + 1, s, hv, _, hfuel => by
    -- the last field
    unfold dumpsFields at hfuel ⊢
    rw [List.length_append, List.length_cons, List.length_append] at hfuel
    rw [readFields_key, skipBlanks_dumps hv, readValue_dumps v fuel _ hv (by omega)]
    rfl
  | k, v, (k', v') :: fs, fuel + 1, s, hv, hfs, hfuel => by
    -- a field with others behind it
    unfold plainFields at hfs
    rw [Bool.and_eq_true] at hfs
    unfold dumpsFields at hfuel ⊢
    rw [List.length_append, List.length_cons, List.length_append, List.length_cons] at hfuel
    rw [readFields_key, skipBlanks_dumps hv, readValue_dumps v fuel _ hv (by omega)]
    simp only [List.cons_append, List.append_assoc]
    have hnext := readFields_dumps k' v' fs fuel s hfs.1 hfs.2 (by omega)
    show (readFields fuel (dumpsStr k' ++ ':' :: (dumps v' ++ (dumpsFields fs ++ s)))).map _ = _
    rw [hnext]
    rfl

end

/-- What is written is read back. -/
theorem loads_dumps {v : JsonValue} (hv : plain v) : loads (dumps v) = some v := by
  have hread := readValue_dumps v ((dumps v).length + 1) [] hv (Nat.le_succ _)
  rw [List.append_nil] at hread
  have hblanks := skipBlanks_dumps hv []
  rw [List.append_nil] at hblanks
  unfold loads
  rw [hblanks, hread]
  rfl

/-- `dict.get`: the last of equal keys is the one that counts. -/
def field (fields : List (List Char × JsonValue)) (key : List Char) : Option JsonValue :=
  (fields.reverse.find? (·.1 = key)).map Prod.snd

end JsonValue

end QCBridge
