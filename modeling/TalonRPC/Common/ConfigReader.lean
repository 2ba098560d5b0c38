import Mathlib.Data.List.Induction
import Mathlib.Logic.Function.Basic
import TalonRPC.Bytes.Lines
import TalonRPC.Bytes.Slice
import TalonRPC.TinyPB.Protocol

/-!
# ConfigReader

A configuration file binds keys to values, one line for each, with spaces wherever one likes around
the two. Blank lines, comments behind a `#` and lines without a `=` are passed over, and a later
line counts more than an earlier one.

## Main definitions

* `ConfigReader`, with `trim` and `parseLine`: the reader, and the map it builds
* `Binding`: a key and a value that can be written down
* `ConfigLine`, `ConfigFile`: what is written in a file, and its text
* `lastBinding`: the last binding of a key

## Main results

* `trim_padded`: trimming takes the spaces around a text away
* `parseLine_text`: a line is a binding, or leaves the map as it is
* `getMap_text`: the map of a file holds the last binding of each key, and nothing else
-/

namespace TalonRPC

open Bytes

/-- `std::string::find`, for a character. -/
def find (str : ByteString) (c : UInt8) : Option ℕ := str.findIdx? (· = c)

/-- `std::string::find_first_not_of`. -/
def findFirstNotOf (str : ByteString) (c : UInt8) : Option ℕ := str.findIdx? (· ≠ c)

/-- `std::string::find_last_not_of`. -/
def findLastNotOf (str : ByteString) (c : UInt8) : Option ℕ :=
  (str.reverse.findIdx? (· ≠ c)).map (str.length - 1 - ·)

/-- `ConfigReader`. -/
structure ConfigReader where
  configMap : ByteString → Option ByteString := fun _ => none

namespace ConfigReader

/-- `ConfigReader::trim`. Both searches find something, or none does. -/
def trim (str : ByteString) : ByteString :=
  match findFirstNotOf str 0x20, findLastNotOf str 0x20 with
  | some first, some last => slice str first (last - first + 1)
  | _, _ => []

/-- `ConfigReader::parseLine`. -/
def parseLine (r : ConfigReader) (line : ByteString) : ConfigReader :=
  let trimmedLine := trim line
  if trimmedLine = [] ∨ trimmedLine.head? = some 0x23 then r
  else
    match find trimmedLine 0x3d with
    | none => r
    | some pos =>
      let key := trim (slice trimmedLine 0 pos)
      let value := trim (trimmedLine.drop (pos + 1))
      { r with configMap := Function.update r.configMap key (some value) }

/-- `ConfigReader::ConfigReader`, for the text of a file, if it can be opened. -/
def new : Option ByteString → ConfigReader
  | none => {}
  | some text => (lines 0x0a text).foldl parseLine {}

/-- `ConfigReader::getMap`. -/
def getMap (r : ConfigReader) : ByteString → Option ByteString := r.configMap

end ConfigReader

/-! ## What is written in a file -/

/-- A key and a value that can be written down: nothing in them is taken for something else. -/
structure Binding where
  key : ByteString
  value : ByteString
  key_ne : key ≠ []
  key_bare : Bare 0x20 key
  key_head : key.head? ≠ some 0x23
  equals_notMem : 0x3d ∉ key
  newline_notMem_key : 0x0a ∉ key
  value_bare : Bare 0x20 value
  newline_notMem_value : 0x0a ∉ value

/-- A line: a binding, with as many spaces as one likes before and behind its key, and before and
behind its value; a blank line; a comment; or one that has no `=`. -/
inductive ConfigLine
  | binding (b : Binding) (beforeKey afterKey beforeValue afterValue : ℕ)
  | blank (spaces : ℕ)
  | comment (spaces : ℕ) (rest : ByteString) (h : 0x0a ∉ rest)
  | noEquals (rest : ByteString) (h : 0x0a ∉ rest) (hequals : 0x3d ∉ rest)

namespace ConfigLine

/-- A number of spaces. -/
def spaces (n : ℕ) : ByteString := List.replicate n 0x20

/-- The text of a line. -/
def text : ConfigLine → ByteString
  | binding b beforeKey afterKey beforeValue afterValue =>
    spaces beforeKey ++ b.key ++ spaces afterKey ++ [0x3d] ++
      spaces beforeValue ++ b.value ++ spaces afterValue
  | blank n => spaces n
  | comment n rest _ => spaces n ++ [0x23] ++ rest
  | noEquals rest _ _ => rest

/-- The binding of a line. -/
def binding? : ConfigLine → Option Binding
  | binding b _ _ _ _ => some b
  | _ => none

end ConfigLine

/-- A file: lines that are ended, and perhaps one more that is not. -/
structure ConfigFile where
  ended : List ConfigLine
  unended : Option ConfigLine := none

namespace ConfigFile

/-- The text of a file. -/
def text (file : ConfigFile) : ByteString :=
  file.ended.flatMap (·.text ++ [0x0a]) ++ (file.unended.map (·.text)).getD []

/-- The bindings of a file, in their order. -/
def bindings (file : ConfigFile) : List Binding :=
  (file.ended ++ file.unended.toList).filterMap (·.binding?)

end ConfigFile

/-- The last binding of a key. -/
def lastBinding (bs : List Binding) (key : ByteString) : Option Binding :=
  (bs.filter (·.key = key)).getLast?

variable {c : UInt8} {s v : ByteString} {r : ConfigReader}

/-! ## Searching -/

theorem find_of_notMem (h : c ∉ s) : find s c = none := by
  rw [find, List.findIdx?_eq_none_iff]
  intro d hd
  rw [decide_eq_false_iff_not]
  rintro rfl
  exact h hd

theorem find_append_cons (h : c ∉ s) (v : ByteString) : find (s ++ c :: v) c = some s.length := by
  have hs := find_of_notMem h
  rw [find] at hs
  simp [find, List.findIdx?_append, hs, List.findIdx?_cons]

/-! ## Trimming -/

theorem findFirstNotOf_padded (h : Bare c s) (hne : s ≠ []) (l n : ℕ) :
    findFirstNotOf (padded c l n s) c = some l := by
  cases s with
  | nil => exact absurd rfl hne
  | cons d s =>
    have hd : d ≠ c := fun heq => h.head (congrArg some heq)
    simp [findFirstNotOf, padded, List.findIdx?_cons, hd]

theorem findLastNotOf_padded (h : Bare c s) (hne : s ≠ []) (l n : ℕ) :
    findLastNotOf (padded c l n s) c = some (l + (s.length - 1)) := by
  have hreverse : (padded c l n s).reverse = padded c n l s.reverse := by
    simp [padded, List.append_assoc]
  have hbare : Bare c s.reverse :=
    ⟨by rw [List.head?_reverse]; exact h.last, by rw [List.getLast?_reverse]; exact h.head⟩
  have hfirst := findFirstNotOf_padded hbare (by simpa using hne) n l
  rw [findFirstNotOf] at hfirst
  rw [findLastNotOf, hreverse, hfirst, Option.map_some, padded]
  have hpos := List.length_pos_iff.mpr hne
  simp only [List.length_append, List.length_replicate]
  congr 1
  omega

theorem findFirstNotOf_padded_nil (c : UInt8) (l n : ℕ) :
    findFirstNotOf (padded c l n []) c = none := by
  simp [findFirstNotOf, padded]

/-- **Trimming takes the spaces around a text away.** -/
theorem trim_padded (h : Bare 0x20 s) (l n : ℕ) : ConfigReader.trim (padded 0x20 l n s) = s := by
  unfold ConfigReader.trim
  by_cases hne : s = []
  · subst hne
    rw [findFirstNotOf_padded_nil]
  · have hpos := List.length_pos_iff.mpr hne
    rw [findFirstNotOf_padded h hne, findLastNotOf_padded h hne]
    exact slice_middle (List.length_replicate ..) (by omega)

/-! ## Lines -/

/-- A line without a `=` leaves the map as it is. -/
theorem parseLine_of_equals_notMem (h : 0x3d ∉ s) : r.parseLine s = r := by
  obtain ⟨l, n, t, ht, rfl⟩ := exists_padded 0x20 s
  have hfind : find t 0x3d = none := find_of_notMem fun hmem => h (mem_padded_of_mem hmem)
  unfold ConfigReader.parseLine
  rw [trim_padded ht]
  simp only [hfind, ite_self]

/-- So does a comment. -/
theorem parseLine_comment (l : ℕ) (rest : ByteString) :
    r.parseLine (ConfigLine.spaces l ++ [0x23] ++ rest) = r := by
  -- Without the spaces behind it, the comment begins with the same character.
  obtain ⟨n, t, hrest, ht⟩ := exists_append_replicate 0x20 (0x23 :: rest)
  cases t with
  | nil =>
    have hmem : (0x23 : UInt8) ∈ List.replicate n 0x20 := by
      rw [← List.nil_append (List.replicate n 0x20), ← hrest]
      exact List.mem_cons_self ..
    exact absurd (List.eq_of_mem_replicate hmem) (by decide)
  | cons c t =>
    obtain ⟨rfl, -⟩ := List.cons.inj hrest
    have hbare : Bare 0x20 (0x23 :: t) := ⟨by simp, ht⟩
    have hline : ConfigLine.spaces l ++ [0x23] ++ rest = padded 0x20 l n (0x23 :: t) := by
      rw [padded, ← hrest, List.append_assoc]
      rfl
    unfold ConfigReader.parseLine
    rw [hline, trim_padded hbare]
    exact if_pos (.inr rfl)

/-- What is left of a binding when the spaces around it are gone. -/
theorem bare_binding (b : Binding) (n : ℕ) (hv : v.getLast? ≠ some 0x20) :
    Bare 0x20 (b.key ++ (ConfigLine.spaces n ++ 0x3d :: v)) := by
  constructor
  · obtain ⟨c, key, hkey⟩ := List.exists_cons_of_ne_nil b.key_ne
    have hhead := b.key_bare.head
    rw [hkey] at hhead ⊢
    exact hhead
  · simp only [List.getLast?_append, List.getLast?_cons, Option.some_or]
    cases hlast : v.getLast? with
    | none => decide
    | some d => exact hlast ▸ hv

/-- **The first `=` is the one behind the key**, and what is behind it is the value. -/
theorem parseLine_padded (b : Binding) (l n m : ℕ) (hv : v.getLast? ≠ some 0x20)
    (hvalue : ConfigReader.trim v = b.value) :
    r.parseLine (padded 0x20 l n (b.key ++ (ConfigLine.spaces m ++ 0x3d :: v))) =
      { r with configMap := Function.update r.configMap b.key (some b.value) } := by
  have hline : b.key ++ (ConfigLine.spaces m ++ 0x3d :: v) =
      b.key ++ ConfigLine.spaces m ++ 0x3d :: v := (List.append_assoc ..).symm
  have hkey : b.key ++ ConfigLine.spaces m = padded 0x20 0 m b.key := rfl
  have hequals : 0x3d ∉ b.key ++ ConfigLine.spaces m := by
    simpa [ConfigLine.spaces] using b.equals_notMem
  have hne : ¬ (b.key ++ ConfigLine.spaces m ++ 0x3d :: v = [] ∨
      (b.key ++ ConfigLine.spaces m ++ 0x3d :: v).head? = some 0x23) := by
    obtain ⟨c, key, hkey⟩ := List.exists_cons_of_ne_nil b.key_ne
    have hhead := b.key_head
    rw [hkey] at hhead ⊢
    simpa using hhead
  unfold ConfigReader.parseLine
  rw [trim_padded (bare_binding b m hv), hline]
  dsimp only
  rw [if_neg hne, find_append_cons hequals]
  dsimp only
  rw [slice, List.drop_zero, List.take_left, ← List.drop_drop, List.drop_left, hkey,
    trim_padded b.key_bare]
  exact hvalue ▸ rfl

/-- The reader after a line. -/
def ConfigReader.after (r : ConfigReader) : Option Binding → ConfigReader
  | none => r
  | some b => { r with configMap := Function.update r.configMap b.key (some b.value) }

/-- **A line is a binding, or leaves the map as it is.** -/
theorem parseLine_text (r : ConfigReader) (line : ConfigLine) :
    r.parseLine line.text = r.after line.binding? := by
  cases line with
  | blank n =>
    refine parseLine_of_equals_notMem fun hmem => ?_
    exact absurd (List.eq_of_mem_replicate hmem) (by decide)
  | comment n rest => exact parseLine_comment n rest
  | noEquals rest h hequals => exact parseLine_of_equals_notMem hequals
  | binding b beforeKey afterKey beforeValue afterValue =>
    by_cases hvalue : b.value = []
    · -- All spaces behind the `=` are behind the text then.
      have hline : (ConfigLine.binding b beforeKey afterKey beforeValue afterValue).text =
          padded 0x20 beforeKey (beforeValue + afterValue)
            (b.key ++ (ConfigLine.spaces afterKey ++ 0x3d :: [])) := by
        simp [ConfigLine.text, ConfigLine.spaces, padded, hvalue]
      rw [hline]
      exact parseLine_padded b _ _ _ (by simp) (by rw [hvalue]; rfl)
    · have hline : (ConfigLine.binding b beforeKey afterKey beforeValue afterValue).text =
          padded 0x20 beforeKey afterValue (b.key ++ (ConfigLine.spaces afterKey ++
            0x3d :: padded 0x20 beforeValue 0 b.value)) := by
        simp [ConfigLine.text, ConfigLine.spaces, padded]
      rw [hline]
      refine parseLine_padded b _ _ _ ?_ (trim_padded b.value_bare ..)
      rw [padded, List.replicate_zero, List.append_nil, List.getLast?_append_of_ne_nil _ hvalue]
      exact b.value_bare.last

/-- A line has no newline of its own. -/
theorem newline_notMem_text (line : ConfigLine) : 0x0a ∉ line.text := by
  cases line with
  | blank n => simp [ConfigLine.text, ConfigLine.spaces]
  | comment n rest h => simpa [ConfigLine.text, ConfigLine.spaces] using h
  | noEquals rest h => exact h
  | binding b =>
    simp [ConfigLine.text, ConfigLine.spaces, b.newline_notMem_key, b.newline_notMem_value]

/-! ## Files -/

theorem lastBinding_append_singleton (bs : List Binding) (b : Binding) (key : ByteString) :
    lastBinding (bs ++ [b]) key = if b.key = key then some b else lastBinding bs key := by
  rw [lastBinding, List.filter_append, List.getLast?_append]
  by_cases h : b.key = key <;> simp [h, lastBinding]

/-- The map holds the last binding of each key. -/
theorem configMap_foldl (ls : List ConfigLine) (key : ByteString) :
    ((ls.map (·.text)).foldl ConfigReader.parseLine {}).configMap key =
      (lastBinding (ls.filterMap (·.binding?)) key).map (·.value) := by
  induction ls using List.reverseRecOn with
  | nil => rfl
  | append_singleton ls line ih =>
    rw [List.map_append, List.foldl_append, List.filterMap_append]
    simp only [List.map_cons, List.map_nil, List.foldl_cons, List.foldl_nil, parseLine_text]
    cases hline : line.binding? with
    | none => simpa [ConfigReader.after, hline] using ih
    | some b =>
      simp only [ConfigReader.after, List.filterMap_cons, hline, List.filterMap_nil,
        lastBinding_append_singleton]
      by_cases hkey : b.key = key
      · rw [if_pos hkey, hkey, Function.update_self]
        rfl
      · rw [if_neg hkey, Function.update_of_ne (Ne.symm hkey), ih]

/-- An empty line that is not ended is not read, and would be passed over. -/
theorem foldl_lines_text (file : ConfigFile) :
    (lines 0x0a file.text).foldl ConfigReader.parseLine {} =
      ((file.ended ++ file.unended.toList).map (·.text)).foldl ConfigReader.parseLine {} := by
  have hended : ∀ line ∈ file.ended.map (·.text), 0x0a ∉ line := by
    intro line hline
    obtain ⟨l, -, rfl⟩ := List.mem_map.mp hline
    exact newline_notMem_text l
  have hunended : 0x0a ∉ (file.unended.map (·.text)).getD [] := by
    cases file.unended with
    | none => exact List.not_mem_nil
    | some line => exact newline_notMem_text line
  have hlines := lines_flatMap hended hunended
  rw [List.flatMap_map] at hlines
  rw [ConfigFile.text, hlines, List.map_append, List.foldl_append, List.foldl_append]
  cases file.unended with
  | none => rfl
  | some line =>
    by_cases hline : line.text = []
    · simp [hline, ConfigReader.parseLine, ConfigReader.trim, findFirstNotOf]
    · simp [hline]

/-- **The map of a file holds the value of the last binding of each key, and nothing else.** -/
theorem getMap_text (file : ConfigFile) (key : ByteString) :
    (ConfigReader.new (some file.text)).getMap key =
      (lastBinding file.bindings key).map (·.value) := by
  rw [ConfigReader.new, ConfigReader.getMap, foldl_lines_text]
  exact configMap_foldl _ key

/-- A file that binds a key twice, with a comment in between: `a= 1`, `# a=2` and ` a =3`. -/
theorem getMap_text_twice :
    let first : Binding :=
      { key := [0x61]
        value := [0x31]
        key_ne := by decide
        key_bare := ⟨by decide, by decide⟩
        key_head := by decide
        equals_notMem := by decide
        newline_notMem_key := by decide
        value_bare := ⟨by decide, by decide⟩
        newline_notMem_value := by decide }
    let second : Binding :=
      { first with
        value := [0x33]
        value_bare := ⟨by decide, by decide⟩
        newline_notMem_value := by decide }
    let file : ConfigFile :=
      { ended := [.binding first 0 0 1 0, .comment 0 [0x20, 0x61, 0x3d, 0x32] (by decide)]
        unended := some (.binding second 1 1 0 0) }
    file.bindings = [first, second] ∧
      (ConfigReader.new (some file.text)).getMap [0x61] = some [0x33] := by
  intro first second file
  exact ⟨rfl, getMap_text file [0x61]⟩

end TalonRPC
