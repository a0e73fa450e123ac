import Mathlib
import Lain.Server.JsonDocuments
import Lain.Server.LineIndexSafety

/-!
# Reading JSON documents

What the reader of a document enters into the index, key by key: the path it is at when it comes to
a key, which it has left for a shorter one behind every empty object.
-/

namespace Lain.Server.OpenapiLineIndex

open Foundation

/-! ### Where the reader is -/

/-- The key that the reader takes a string for. -/
def Spelling.read (s : Spelling) : Key :=
  unescapeJsonString s.text

def seenPath (path : KeyPath) (key : Spelling) (blanks : MemberBlanks) : KeyPath :=
  if InlineBlank.isNear blanks.beforeColon then path ++ [key.read] else path

mutual

def Value.leaves (path : KeyPath) : Value → KeyPath
  | .word _ => path
  | .string _ => path
  | .object (.nil _) => path.dropLast
  | .object (.cons key blanks value rest) =>
    rest.leaves (value.leaves (seenPath path key blanks)).dropLast
  | .array items => items.leaves 0 path

def Members.leaves (path : KeyPath) : Members → KeyPath
  | .nil _ => path
  | .cons key blanks value rest =>
    rest.leaves (value.leaves (seenPath path key blanks)).dropLast

def Items.leaves (i : Nat) (path : KeyPath) : Items → KeyPath
  | .nil _ => path
  | .cons _ value _ rest => rest.leaves (i + 1) (value.leaves (path ++ [position i])).dropLast

end

mutual

/-- What is entered of a value that begins on a line. -/
def Value.found (path : KeyPath) (line : Nat) : Value → List (KeyPath × Nat)
  | .word _ => []
  | .string _ => []
  | .object members => members.found path line
  | .array items => items.found 0 path line

/-- What is entered of members. -/
def Members.found (path : KeyPath) (line : Nat) : Members → List (KeyPath × Nat)
  | .nil _ => []
  | .cons key blanks value rest =>
    let atKey := lineAfter line blanks.beforeKey.1
    let atValue := lineAfter atKey blanks.afterColon.1
    (if InlineBlank.isNear blanks.beforeColon then [(path ++ [key.read], atKey)] else []) ++
      (value.found (seenPath path key blanks) atValue ++
        rest.found (value.leaves (seenPath path key blanks)).dropLast
          (lineAfter (lineAfter atValue value.text) blanks.behind.1))

/-- What is entered of items. -/
def Items.found (i : Nat) (path : KeyPath) (line : Nat) : Items → List (KeyPath × Nat)
  | .nil _ => []
  | .cons before value behind rest =>
    let atValue := lineAfter line before.1
    value.found (path ++ [position i]) atValue ++
      rest.found (i + 1) (value.leaves (path ++ [position i])).dropLast
        (lineAfter (lineAfter atValue value.text) behind.1)

end

structure Spot where
  path : KeyPath
  containers : List Bool
  indices : List Nat
  line : Nat

structure JsonWalk.IsAt (st : JsonWalk) (spot : Spot) : Prop where
  path : st.path = spot.path
  containers : st.containers = spot.containers
  indices : st.indices = spot.indices
  line : st.lineNo = wrap spot.line

def Reads (spot : Spot) (ts : List Token) (found : List (KeyPath × Nat)) (next : Spot) : Prop :=
  ∀ st : JsonWalk, st.IsAt spot → ∃ after, ts.foldlM JsonWalk.apply st = some after ∧
    after.IsAt next ∧
    noted JsonWalk.apply tokenEntry st ts = found.map fun e => (e.1, wrap e.2)

section Parts

variable {spot next last : Spot} {ts more : List Token} {found further : List (KeyPath × Nat)}

theorem Reads.nil (spot : Spot) : Reads spot [] [] spot :=
  fun st here => ⟨st, rfl, here, rfl⟩

theorem Reads.append (first : Reads spot ts found next) (then_ : Reads next more further last) :
    Reads spot (ts ++ more) (found ++ further) last := by
  intro st here
  obtain ⟨middle, run, there, noted₁⟩ := first st here
  obtain ⟨after, run', end_, noted₂⟩ := then_ middle there
  refine ⟨after, ?_, end_, ?_⟩
  · rw [List.foldlM_append, run]
    exact run'
  · rw [noted_append run, noted₁, noted₂, List.map_append]

theorem Reads.token {t : Token} (plain : ∀ raw, t ≠ .key raw)
    (step : ∀ st : JsonWalk, st.IsAt spot → ∃ after, st.apply t = some after ∧ after.IsAt next) :
    Reads spot [t] [] next := by
  intro st here
  obtain ⟨after, applied, there⟩ := step st here
  refine ⟨after, ?_, there, ?_⟩
  · rw [List.foldlM_cons, applied]
    rfl
  · rw [noted, applied]
    cases t with
    | key raw => exact absurd rfl (plain raw)
    | _ => rfl

end Parts

/-! ### Tokens -/

section Tokens

variable {path : KeyPath} {containers : List Bool} {indices : List Nat} {line : Nat}

theorem reads_objectStart :
    Reads ⟨path, containers, indices, line⟩ [.objectStart] []
      ⟨path, false :: containers, indices, line⟩ :=
  .token (fun _ same => by cases same) fun st here =>
    ⟨_, rfl, here.path, congrArg _ here.containers, here.indices, here.line⟩

theorem reads_objectEnd {inner : Bool} :
    Reads ⟨path, inner :: containers, indices, line⟩ [.objectEnd] []
      ⟨path.dropLast, containers, indices, line⟩ :=
  .token (fun _ same => by cases same) fun st here =>
    ⟨_, rfl, congrArg _ here.path, congrArg List.tail here.containers, here.indices, here.line⟩

theorem reads_arrayStart :
    Reads ⟨path, containers, indices, line⟩ [.arrayStart] []
      ⟨path ++ [position 0], true :: containers, 0 :: indices, line⟩ :=
  .token (fun _ same => by cases same) fun st here =>
    ⟨_, rfl, congrArg (· ++ [position 0]) here.path, congrArg _ here.containers,
      congrArg _ here.indices, here.line⟩

theorem reads_arrayEnd {inner : Bool} {j : Nat} :
    Reads ⟨path, inner :: containers, j :: indices, line⟩ [.arrayEnd] []
      ⟨path.dropLast, containers, indices, line⟩ :=
  .token (fun _ same => by cases same) fun st here =>
    ⟨_, rfl, congrArg _ here.path, congrArg List.tail here.containers,
      congrArg List.tail here.indices, here.line⟩

theorem reads_objectComma :
    Reads ⟨path, false :: containers, indices, line⟩ [.comma] []
      ⟨path.dropLast, false :: containers, indices, line⟩ := by
  refine .token (fun _ same => by cases same) fun st here => ⟨_, rfl, ?_⟩
  rw [outside_comma, here.containers, List.head?_cons, Option.getD_some, if_neg (by decide)]
  exact ⟨congrArg _ here.path, rfl, here.indices, here.line⟩

theorem reads_arrayComma {j : Nat} :
    Reads ⟨path, true :: containers, j :: indices, line⟩ [.comma] []
      ⟨path.dropLast ++ [position (j + 1)], true :: containers, (j + 1) :: indices, line⟩ := by
  refine .token (fun _ same => by cases same) fun st here => ⟨_, rfl, ?_⟩
  rw [outside_comma, here.containers, List.head?_cons, Option.getD_some, if_pos rfl]
  have positions := here.indices
  dsimp only at positions
  rw [positions]
  exact ⟨congrArg (fun p => List.dropLast p ++ [position (j + 1)]) here.path, rfl, rfl, here.line⟩

theorem reads_key (raw : List Char) :
    Reads ⟨path, false :: containers, indices, line⟩ [.key raw]
      [(path ++ [unescapeJsonString raw], line)]
      ⟨path ++ [unescapeJsonString raw], false :: containers, indices, line⟩ := by
  intro st here
  have pushed : st.apply (.key raw) = some
      { st with
        path := st.path ++ [unescapeJsonString raw]
        map := st.map.insert (st.path ++ [unescapeJsonString raw]) st.lineNo } := by
    rw [JsonWalk.apply, JsonWalk.pushKey, here.containers]
    rfl
  have run : [Token.key raw].foldlM JsonWalk.apply st = st.apply (.key raw) := by
    rw [List.foldlM_cons, pushed]
    rfl
  refine ⟨_, run.trans pushed, ⟨congrArg (· ++ [unescapeJsonString raw]) here.path,
    here.containers, here.indices, here.line⟩, ?_⟩
  rw [noted, pushed]
  change [(st.path ++ [unescapeJsonString raw], st.lineNo)] ++ [] = _
  rw [here.path, here.line]
  rfl

theorem reads_feeds (text : List Char) :
    Reads ⟨path, containers, indices, line⟩ (feeds text) []
      ⟨path, containers, indices, lineAfter line text⟩ := by
  unfold feeds lineAfter
  generalize text.count '\n' = n
  induction n generalizing line with
  | zero => exact .nil _
  | succ n ih =>
    have step : Reads ⟨path, containers, indices, line⟩ [.lineFeed] []
        ⟨path, containers, indices, line + 1⟩ :=
      .token (fun _ same => by cases same) fun st here =>
        ⟨_, rfl, here.path, here.containers, here.indices, by
          change wrap (st.lineNo + 1) = wrap (line + 1)
          rw [here.line]
          exact Nat.mod_add_mod _ _ _⟩
    change Reads _ (.lineFeed :: List.replicate n .lineFeed) [] ⟨_, _, _, line + (n + 1)⟩
    rw [show line + (n + 1) = line + 1 + n by omega]
    exact step.append ih

end Tokens

/-! ### Lines -/

theorem lineAfter_append (line : Nat) (text later : List Char) :
    lineAfter line (text ++ later) = lineAfter (lineAfter line text) later := by
  unfold lineAfter
  rw [List.count_append, Nat.add_assoc]

theorem lineAfter_of_notMem {text : List Char} (lineless : '\n' ∉ text) (line : Nat) :
    lineAfter line text = line := by
  unfold lineAfter
  rw [List.count_eq_zero_of_not_mem lineless, Nat.add_zero]

theorem lineAfter_cons {c : Char} (inside : c ≠ '\n') (line : Nat) (later : List Char) :
    lineAfter line (c :: later) = lineAfter line later := by
  unfold lineAfter
  rw [List.count_cons_of_ne inside]

theorem lineAfter_nil (line : Nat) : lineAfter line [] = line := rfl

theorem Spelling.lineless (s : Spelling) : '\n' ∉ s.text := by
  have digits : ∀ {code : List Char}, IsCode code → '\n' ∉ code := fun digits member =>
    absurd (digits.2 _ member) (by decide)
  intro member
  obtain ⟨piece, -, inside⟩ := List.mem_flatMap.mp member
  cases piece with
  | plain c allowed =>
    rw [Piece.text, List.mem_singleton] at inside
    exact absurd allowed.2.2 (by rw [← inside]; decide)
  | escape letter allowed =>
    simp only [Piece.text, List.mem_cons, List.not_mem_nil, or_false] at inside
    rcases inside with same | rfl
    · cases same
    · exact absurd allowed (by decide)
  | unicode code allowed =>
    simp only [Piece.text, List.mem_cons] at inside
    rcases inside with same | same | inside
    · cases same
    · cases same
    · exact digits allowed.1 inside
  | surrogates high low allowed =>
    simp only [Piece.text, List.mem_cons, List.mem_append] at inside
    rcases inside with (same | same | inside) | same | same | inside
    · cases same
    · cases same
    · exact digits allowed.1.1 inside
    · cases same
    · cases same
    · exact digits allowed.1.2 inside

theorem lineAfter_member (line : Nat) (separator : List Char) (lineless : '\n' ∉ separator)
    (key : Spelling) (blanks : MemberBlanks) (value : Value) (rest : Members) :
    lineAfter line ((Members.cons key blanks value rest).text separator) =
      lineAfter (lineAfter (lineAfter (lineAfter (lineAfter line blanks.beforeKey.1)
        blanks.afterColon.1) value.text) blanks.behind.1) (rest.text [',']) := by
  have colonless : '\n' ∉ blanks.beforeColon.1 := fun member =>
    absurd (blanks.beforeColon.2 _ member) (by decide)
  rw [Members.text]
  simp only [lineAfter_append, lineAfter_cons (show '"' ≠ '\n' by decide),
    lineAfter_cons (show ':' ≠ '\n' by decide), lineAfter_of_notMem lineless,
    lineAfter_of_notMem key.lineless, lineAfter_of_notMem colonless, lineAfter_nil]

theorem lineAfter_item (line : Nat) (separator : List Char) (lineless : '\n' ∉ separator)
    (before : Blank) (value : Value) (behind : Blank) (rest : Items) :
    lineAfter line ((Items.cons before value behind rest).text separator) =
      lineAfter (lineAfter (lineAfter (lineAfter line before.1) value.text) behind.1)
        (rest.text [',']) := by
  rw [Items.text]
  simp only [lineAfter_append, lineAfter_of_notMem lineless]

/-! ### Documents -/

mutual

theorem Value.reads : ∀ (v : Value) (path : KeyPath) (containers : List Bool) (indices : List Nat)
    (line : Nat), Reads ⟨path, containers, indices, line⟩ v.tokens (v.found path line)
      ⟨v.leaves path, containers, indices, lineAfter line v.text⟩
  | .word w, path, containers, indices, line => by
    have lineless : '\n' ∉ w.1 := fun member => absurd (w.2 _ member) (by decide)
    rw [Value.text, lineAfter_of_notMem lineless]
    exact .nil _
  | .string s, path, containers, indices, line => by
    rw [Value.text, lineAfter_append, lineAfter_cons (by decide), lineAfter_cons (by decide),
      lineAfter_of_notMem s.lineless]
    exact .nil _
  | .object (.nil blank), path, containers, indices, line => by
    rw [Value.text, lineAfter_append, lineAfter_cons (by decide), lineAfter_cons (by decide)]
    exact (reads_objectStart.append (reads_feeds blank.1)).append reads_objectEnd
  | .object (.cons key blanks value rest), path, containers, indices, line => by
    obtain ⟨end_, back, inner⟩ := Members.reads (.cons key blanks value rest) [] [] path path
      containers indices line List.not_mem_nil (fun _ same => by cases same) (.nil _)
    have whole := (reads_objectStart.append inner).append reads_objectEnd
    rw [back, List.nil_append, List.append_nil] at whole
    rw [Value.text, lineAfter_append, lineAfter_cons (by decide), lineAfter_cons (by decide)]
    exact whole
  | .array items, path, containers, indices, line => by
    obtain ⟨end_, k, back, inner⟩ := Items.reads items [] [] 0 0 (path ++ [position 0]) path
      containers indices line List.not_mem_nil List.dropLast_concat (.nil _)
    have whole := (reads_arrayStart.append inner).append reads_arrayEnd
    rw [back, List.nil_append, List.append_nil] at whole
    rw [Value.text, lineAfter_append, lineAfter_cons (by decide), lineAfter_cons (by decide)]
    exact whole

theorem Members.reads : ∀ (ms : Members) (separator : List Char) (ts : List Token)
    (start path : KeyPath) (containers : List Bool) (indices : List Nat) (line : Nat),
    '\n' ∉ separator → (∀ blank, ms = .nil blank → start.dropLast = path) →
    Reads ⟨start, false :: containers, indices, line⟩ ts []
      ⟨path, false :: containers, indices, line⟩ →
    ∃ end_ : KeyPath, end_.dropLast = ms.leaves path ∧
      Reads ⟨start, false :: containers, indices, line⟩ (ms.tokens ts) (ms.found path line)
        ⟨end_, false :: containers, indices, lineAfter line (ms.text separator)⟩
  | .nil blank, _, _, start, _, _, _, _, _, back, _ => ⟨start, back blank rfl, reads_feeds _⟩
  | .cons key blanks value rest, separator, ts, start, path, containers, indices, line,
      lineless, _, cross => by
      have atKey : ∀ line, Reads ⟨path, false :: containers, indices, line⟩
          (if InlineBlank.isNear blanks.beforeColon then [.key key.text] else [])
          (if InlineBlank.isNear blanks.beforeColon then [(path ++ [key.read], line)] else [])
          ⟨seenPath path key blanks, false :: containers, indices, line⟩ := by
        intro line
        unfold seenPath
        split_ifs
        · exact reads_key key.text
        · exact .nil _
      obtain ⟨end_, back, later⟩ := Members.reads rest [','] [.comma]
        (value.leaves (seenPath path key blanks)) _ containers indices
        (lineAfter (lineAfter (lineAfter (lineAfter line blanks.beforeKey.1)
          blanks.afterColon.1) value.text) blanks.behind.1)
        (by decide) (fun _ _ => rfl) reads_objectComma
      have whole := (((((cross.append (reads_feeds blanks.beforeKey.1)).append (atKey _)).append
        (reads_feeds blanks.afterColon.1)).append (Value.reads value _ _ _ _)).append
        (reads_feeds blanks.behind.1)).append later
      simp only [List.append_nil, List.nil_append, List.append_assoc] at whole
      refine ⟨end_, back, ?_⟩
      rw [Members.tokens, Members.found, lineAfter_member line separator lineless]
      simp only [List.append_assoc]
      exact whole

theorem Items.reads : ∀ (items : Items) (separator : List Char) (ts : List Token) (i j : Nat)
    (start path : KeyPath) (containers : List Bool) (indices : List Nat) (line : Nat),
    '\n' ∉ separator → start.dropLast = path →
    Reads ⟨start, true :: containers, j :: indices, line⟩ ts []
      ⟨path ++ [position i], true :: containers, i :: indices, line⟩ →
    ∃ (end_ : KeyPath) (k : Nat), end_.dropLast = items.leaves i path ∧
      Reads ⟨start, true :: containers, j :: indices, line⟩ (items.tokens ts)
        (items.found i path line)
        ⟨end_, true :: containers, k :: indices, lineAfter line (items.text separator)⟩
  | .nil blank, _, _, _, j, start, _, _, _, _, _, back, _ => ⟨start, j, back, reads_feeds _⟩
  | .cons before value behind rest, separator, ts, i, j, start, path, containers, indices, line,
      lineless, _, cross => by
      obtain ⟨end_, k, back, later⟩ := Items.reads rest [','] [.comma] (i + 1) i
        (value.leaves (path ++ [position i])) _ containers indices
        (lineAfter (lineAfter (lineAfter line before.1) value.text) behind.1)
        (by decide) rfl reads_arrayComma
      have whole := (((cross.append (reads_feeds before.1)).append
        (Value.reads value _ _ _ _)).append (reads_feeds behind.1)).append later
      simp only [List.append_nil, List.nil_append] at whole
      refine ⟨end_, k, back, ?_⟩
      rw [Items.tokens, Items.found, lineAfter_item line separator lineless]
      exact whole

end


/-- What is entered of a document. -/
def Document.found (doc : Document) : List (KeyPath × Nat) :=
  doc.root.found [] (lineAfter 1 doc.before.1)

/-- **The index of a document** is made of what is entered, the lines as numbers of 32 bits. -/
theorem Document.exists_buildJson (doc : Document) :
    ∃ index, buildJson doc.text = some index ∧
      index.map = (doc.found.map fun e => (e.1, wrap e.2)).foldl
        (fun m e => m.insert e.1 e.2) ∅ := by
  have start : Reads ⟨[], [], [], 1⟩ (feeds doc.before.1) [] _ := reads_feeds doc.before.1
  have whole := (start.append (Value.reads (.object doc.root) [] [] [] _)).append
    (reads_feeds doc.behind.1)
  rw [List.nil_append, List.append_nil, ← tokens_text] at whole
  obtain ⟨st, run, -, noted⟩ := whole {} ⟨rfl, rfl, rfl, rfl⟩
  have made := buildJson_eq doc.text
  rw [run, Option.map_some, Option.map_eq_some_iff] at made
  obtain ⟨index, built, -⟩ := made
  refine ⟨index, built, ?_⟩
  rw [buildJson_map built, noted]
  rfl

end Lain.Server.OpenapiLineIndex
