import Mathlib
import Lain.Foundation.Failing
import Lain.Server.JsonTokens

/-!
# When the line index is built

Which texts the line index of a specification can be built of, and which line numbers it holds.
-/

namespace Lain.Server.OpenapiLineIndex

open Foundation
open Foundation.ByteCursor (bytes slice dropBytes takeBytes At)
open Foundation.Blanks (trim trimEnd)
open Foundation.TextLines (lines)

variable {content raw : List Char}

/-! ### What is entered -/

def tokenEntry (_ : JsonWalk) (t : Token) (after : JsonWalk) : List (KeyPath × Nat) :=
  match t with
  | .key _ => [(after.path, after.lineNo)]
  | _ => []

def lineEntry (_ : YamlState) (line : List Char × Nat) (after : YamlState) :
    List (KeyPath × Nat) :=
  match yamlEntry line.1 with
  | some (some _) => [((after.frames.head?.map YamlFrame.path).getD [], wrap (wrap line.2 + 1))]
  | _ => []

def isJson (content : List Char) : Bool :=
  ['{'].isPrefixOf (content.dropWhile Blanks.isWhitespace)

def entries (content : List Char) : List (KeyPath × Nat) :=
  if isJson content then noted JsonWalk.apply tokenEntry {} (tokens content)
  else noted yamlLine lineEntry ⟨∅, [], ∅, ∅⟩ (lines content).zipIdx

/-! ### YAML -/

def IsBareDash (raw : List Char) : Prop :=
  ∃ n blanks, raw = List.replicate n ' ' ++ '-' :: blanks ∧ ∀ c ∈ blanks, Blanks.isWhitespace c = true

theorem yamlText_eq (raw : List Char) :
    yamlText raw = some (trimEnd (raw.dropWhile fun c => decide (c = ' '))) := by
  obtain ⟨size, width⟩ := @ByteCursor.length_takeWhile_bytes (fun c => decide (c = ' '))
    (fun b => decide (b = 32))
    (fun c blank => by rw [of_decide_eq_true blank]; decide)
    (fun b blank => by rw [of_decide_eq_true blank]; decide)
    (fun c narrow => Bool.eq_iff_iff.mpr (by
      rw [decide_eq_true_iff, decide_eq_true_iff]
      exact @ByteCursor.toUInt8_eq_iff c ' ' narrow (by decide))) raw
  unfold yamlText leadingSpaces
  rw [size, ← width, ByteCursor.dropBytes_eq_some.mpr
    ⟨_, List.takeWhile_append_dropWhile.symm, rfl⟩, Option.map_some]

theorem unquoteYamlKey_ne_none (key : List Char) : unquoteYamlKey key ≠ none := by
  unfold unquoteYamlKey
  dsimp only
  split_ifs with quoted
  · obtain ⟨long, ends⟩ := quoted
    obtain ⟨q, ascii, first, last⟩ : ∃ q : UInt8, q.toNat < 128 ∧ (bytes key)[0]? = some q ∧
        (bytes key)[(bytes key).length - 1]? = some q := by
      simp only [List.head?_eq_getElem?, List.getLast?_eq_getElem?] at ends
      rcases ends with ⟨first, last⟩ | ⟨first, last⟩
      · exact ⟨34, by decide, first, last⟩
      · exact ⟨39, by decide, first, last⟩
    obtain ⟨c, rest, here, narrow, -⟩ := ByteCursor.exists_at first ascii
    obtain ⟨d, after, there, -, -⟩ := ByteCursor.exists_at last ascii
    have next := here.next
    rw [ByteCursor.utf8Size_ascii narrow] at next
    obtain ⟨front, cut, -⟩ := next.exists_slice there (by omega)
    rw [cut]
    exact Option.some_ne_none front
  · exact Option.some_ne_none key

theorem yamlPropertyKey_ne_none (body : List Char) : yamlPropertyKey body ≠ none := by
  unfold yamlPropertyKey
  dsimp only
  split
  · exact Option.some_ne_none _
  · split_ifs
    · exact Option.some_ne_none _
    · rw [ne_eq, Option.map_eq_none_iff]
      exact unquoteYamlKey_ne_none _

theorem trimEnd_eq_dash_iff :
    trimEnd (raw.dropWhile fun c => decide (c = ' ')) = ['-'] ↔ IsBareDash raw := by
  constructor
  · intro left
    have spaces : raw.takeWhile (fun c => decide (c = ' ')) =
        List.replicate (raw.takeWhile fun c => decide (c = ' ')).length ' ' :=
      List.eq_replicate_of_mem fun c member => by simpa using List.mem_takeWhile_imp member
    obtain ⟨blanks, whole, white⟩ :=
      Blanks.exists_eq_trimEnd_append (raw.dropWhile fun c => decide (c = ' '))
    rw [left] at whole
    refine ⟨(raw.takeWhile fun c => decide (c = ' ')).length, blanks, ?_, white⟩
    calc raw = raw.takeWhile (fun c => decide (c = ' ')) ++
          raw.dropWhile (fun c => decide (c = ' ')) := List.takeWhile_append_dropWhile.symm
      _ = List.replicate (raw.takeWhile fun c => decide (c = ' ')).length ' ' ++
          '-' :: blanks := by
        rw [← spaces, whole]
        rfl
  · rintro ⟨n, blanks, rfl, white⟩
    rw [List.dropWhile_append_of_pos fun c member =>
        decide_eq_true (List.eq_of_mem_replicate member),
      List.dropWhile_cons_of_neg (by decide)]
    unfold trimEnd Blanks.trimEndMatches
    rw [List.reverse_cons, List.dropWhile_append_of_pos fun c member =>
      white c (List.mem_reverse.mp member), List.dropWhile_cons_of_neg (by decide)]
    rfl

theorem yamlEntry_eq_none_iff : yamlEntry raw = none ↔ IsBareDash raw := by
  rw [← trimEnd_eq_dash_iff]
  unfold yamlEntry
  rw [yamlText_eq]
  generalize trimEnd (raw.dropWhile fun c => decide (c = ' ')) = stripped
  simp only [Option.bind_eq_bind, Option.bind_some]
  by_cases skipped : (stripped.isEmpty || ['#'].isPrefixOf stripped) = true
  · rw [if_pos skipped]
    refine iff_of_false (fun failed => by cases failed) ?_
    rintro rfl
    exact absurd skipped (by decide)
  · rw [if_neg skipped]
    have readable : ∀ (isArr : Bool) (indent : Nat) (body : List Char),
        ((yamlPropertyKey body).bind fun found =>
          some (found.map fun key => (isArr, indent, key))) ≠ none := by
      intro isArr indent body
      obtain ⟨found, read⟩ := Option.ne_none_iff_exists'.mp (yamlPropertyKey_ne_none body)
      rw [read]
      exact Option.some_ne_none _
    by_cases dash : startsWithDash stripped = true
    · rw [if_pos dash]
      unfold startsWithDash at dash
      rw [Bool.or_eq_true, List.isPrefixOf_iff_prefix, decide_eq_true_iff] at dash
      rcases dash with ⟨rest, rfl⟩ | rfl
      · refine iff_of_false ?_ fun same => by cases same
        have cut : dropBytes ("- ".toList ++ rest) 2 = some rest :=
          ByteCursor.dropBytes_eq_some.mpr ⟨"- ".toList, rfl, by decide⟩
        rw [cut]
        exact readable _ _ rest
      · exact iff_of_true (by rfl) rfl
    · rw [if_neg dash]
      refine iff_of_false (readable _ _ stripped) ?_
      rintro rfl
      exact dash (by decide)

theorem buildYaml_eq_none_iff :
    buildYaml content = none ↔ ∃ raw ∈ lines content, IsBareDash raw := by
  have each : ∀ st line, yamlLine st line = none ↔ IsBareDash line.1 := fun st line => by
    unfold yamlLine
    rw [Option.map_eq_none_iff, yamlEntry_eq_none_iff]
  unfold buildYaml
  rw [Option.bind_eq_bind, Option.bind_eq_none_iff]
  constructor
  · intro failed
    have stuck : (lines content).zipIdx.foldlM yamlLine ⟨∅, [], ∅, ∅⟩ = none :=
      Option.eq_none_iff_forall_ne_some.mpr fun st run => by cases failed st run
    obtain ⟨line, member, dash⟩ := (foldlM_eq_none_iff each _).mp stuck
    exact ⟨line.1, List.fst_mem_of_mem_zipIdx member, dash⟩
  · rintro ⟨raw, member, dash⟩ st run
    rw [← List.zipIdx_map_fst 0 (lines content)] at member
    obtain ⟨line, listed, rfl⟩ := List.mem_map.mp member
    rw [(foldlM_eq_none_iff each _).mpr ⟨line, listed, dash⟩] at run
    cases run

theorem buildYaml_map {index : LineIndex} (built : buildYaml content = some index) :
    index.map = (noted yamlLine lineEntry ⟨∅, [], ∅, ∅⟩ (lines content).zipIdx).foldl
      (fun m e => m.insert e.1 e.2) ∅ := by
  obtain ⟨st, run, done⟩ := Option.bind_eq_some_iff.mp built
  obtain rfl := Option.some_inj.mp done
  refine @foldl_noted _ _ _ _ _ _ YamlState.map
    (fun m (e : KeyPath × Nat) => m.insert e.1 e.2)
    (fun s line t step => ?_) _ _ _ run
  obtain ⟨entry, read, rfl⟩ := Option.map_eq_some_iff.mp step
  unfold lineEntry
  rw [read]
  cases entry with
  | none => rfl
  | some entry =>
    obtain ⟨isArr, keyIndent, key⟩ := entry
    cases isArr <;> rfl

theorem wrap_le (n : Nat) : wrap n ≤ n :=
  Nat.mod_le _ _

theorem line_le_of_mem_yaml {e : KeyPath × Nat}
    (member : e ∈ noted yamlLine lineEntry ⟨∅, [], ∅, ∅⟩ (lines content).zipIdx) :
    e.2 ≤ (lines content).length := by
  obtain ⟨front, line, back, st, t, whole, -, -, noted⟩ := exists_of_mem_noted member
  have listed : line ∈ (lines content).zipIdx := by rw [whole]; simp
  have small := List.snd_lt_of_mem_zipIdx listed
  unfold lineEntry at noted
  split at noted
  · rw [List.mem_singleton.mp noted]
    have first := wrap_le (wrap line.2 + 1)
    have second := wrap_le line.2
    dsimp only
    omega
  · cases noted

/-! ### JSON -/

def bracketStep (open_ : List Bool × Nat) : Token → List Bool × Nat
  | .objectStart => (false :: open_.1, open_.2)
  | .objectEnd => (open_.1.tail, open_.2)
  | .arrayStart => (true :: open_.1, open_.2 + 1)
  | .arrayEnd => (open_.1.tail, open_.2 - 1)
  | _ => open_

def brackets (front : List Token) : List Bool × Nat :=
  front.foldl bracketStep ([], 0)

def Starved (front : List Token) : Prop :=
  (brackets front).1.head? = some true ∧ (brackets front).2 = 0

variable {st after : JsonWalk} {front : List Token} {t : Token}

theorem pushKey_eq_none_iff {key : Key} :
    st.pushKey key = none ↔ st.containers.head? = some true ∧ st.indices = [] := by
  unfold JsonWalk.pushKey
  rcases st.containers.head? with _ | _ | _ <;> cases st.indices <;> simp

theorem apply_eq_none_iff :
    st.apply t = none ↔
      (∃ raw, t = .key raw) ∧ st.containers.head? = some true ∧ st.indices = [] := by
  cases t with
  | key raw =>
    rw [JsonWalk.apply, pushKey_eq_none_iff]
    exact (and_iff_right ⟨raw, rfl⟩).symm
  | _ => simp [JsonWalk.apply]

theorem pushKey_eq_some {key : Key} (pushed : st.pushKey key = some after) :
    after.containers = st.containers ∧ after.indices.length = st.indices.length ∧
      after.lineNo = st.lineNo ∧ after.map = st.map.insert after.path st.lineNo := by
  unfold JsonWalk.pushKey at pushed
  dsimp only at pushed
  split_ifs at pushed
  · obtain rfl := Option.some_inj.mp pushed
    exact ⟨rfl, rfl, rfl, rfl⟩
  · split at pushed
    · cases pushed
    · next nonempty =>
        obtain rfl := Option.some_inj.mp pushed
        exact ⟨rfl, by rw [nonempty]; rfl, rfl, rfl⟩

theorem outside_comma (st : JsonWalk) :
    st.outside 44 =
      if st.containers.head?.getD false then
        let indices := match st.indices with
          | idx :: outer => (idx + 1) :: outer
          | [] => []
        { st with indices, path := st.path.dropLast ++ [position (indices.head?.getD 0)] }
      else { st with path := st.path.dropLast } :=
  rfl

theorem brackets_apply (step : st.apply t = some after) :
    (after.containers, after.indices.length) =
      bracketStep (st.containers, st.indices.length) t := by
  cases t with
  | key raw =>
    obtain ⟨sameContainers, sameLength, -, -⟩ := pushKey_eq_some step
    rw [sameContainers, sameLength]
    rfl
  | comma =>
    obtain rfl := Option.some_inj.mp step
    rw [outside_comma]
    split_ifs
    · cases st.indices <;> rfl
    · rfl
  | arrayEnd =>
    obtain rfl := Option.some_inj.mp step
    exact Prod.ext rfl List.length_tail
  | _ =>
    obtain rfl := Option.some_inj.mp step
    rfl

theorem lineNo_apply (step : st.apply t = some after) :
    after.lineNo = if t = .lineFeed then wrap (st.lineNo + 1) else st.lineNo := by
  cases t with
  | key raw =>
    rw [if_neg (by simp)]
    exact (pushKey_eq_some step).2.2.1
  | comma =>
    obtain rfl := Option.some_inj.mp step
    rw [outside_comma, if_neg (show Token.comma ≠ .lineFeed by decide)]
    split_ifs <;> rfl
  | _ =>
    obtain rfl := Option.some_inj.mp step
    rfl

theorem map_apply (step : st.apply t = some after) :
    after.map = (tokenEntry st t after).foldl (fun m e => m.insert e.1 e.2) st.map := by
  cases t with
  | key raw =>
    obtain ⟨-, -, sameLine, entered⟩ := pushKey_eq_some step
    rw [entered, ← sameLine]
    rfl
  | comma =>
    obtain rfl := Option.some_inj.mp step
    rw [outside_comma]
    split_ifs <;> rfl
  | _ =>
    obtain rfl := Option.some_inj.mp step
    rfl

theorem brackets_eq (run : front.foldlM JsonWalk.apply {} = some st) :
    brackets front = (st.containers, st.indices.length) :=
  (@foldl_of_foldlM _ _ _ JsonWalk.apply (fun st => (st.containers, st.indices.length)) bracketStep
    (fun _ _ _ => brackets_apply) _ _ _ run).symm

theorem lineNo_eq (run : front.foldlM JsonWalk.apply {} = some st) :
    st.lineNo = wrap (front.count .lineFeed + 1) := by
  have count : ∀ n, front.foldl (fun n t => if t = .lineFeed then wrap (n + 1) else n) (wrap n) =
      wrap (n + front.count .lineFeed) := by
    clear run
    induction front with
    | nil => exact fun _ => rfl
    | cons t front ih =>
      intro n
      rw [List.foldl_cons]
      split_ifs with feed
      · have step : wrap (wrap n + 1) = wrap (n + 1) := Nat.mod_add_mod _ _ _
        rw [step, ih, feed, List.count_cons_self, Nat.add_assoc, Nat.add_comm 1]
      · rw [ih, List.count_cons_of_ne feed]
  rw [@foldl_of_foldlM _ _ _ JsonWalk.apply JsonWalk.lineNo
    (fun n t => if t = .lineFeed then wrap (n + 1) else n) (fun _ _ _ => lineNo_apply) _ _ _ run,
    Nat.add_comm]
  exact count 1

theorem buildJson_eq_none_iff :
    buildJson content = none ↔
      ∃ front raw back, tokens content = front ++ .key raw :: back ∧ Starved front := by
  rw [← Option.map_eq_none_iff, buildJson_eq, Option.map_eq_none_iff, foldlM_eq_none_iff_exists]
  constructor
  · rintro ⟨front, t, back, st, whole, run, failed⟩
    obtain ⟨⟨raw, rfl⟩, array, empty⟩ := apply_eq_none_iff.mp failed
    refine ⟨front, raw, back, whole, ?_⟩
    unfold Starved
    rw [brackets_eq run]
    exact ⟨array, by rw [empty]; rfl⟩
  · rintro ⟨front, raw, back, whole, starved⟩
    cases run : front.foldlM JsonWalk.apply {} with
    | none =>
      obtain ⟨first, t, rest, st, rfl, reached, failed⟩ := foldlM_eq_none_iff_exists.mp run
      exact ⟨first, t, rest ++ .key raw :: back, st, by rw [whole]; simp, reached, failed⟩
    | some st =>
      unfold Starved at starved
      rw [brackets_eq run] at starved
      exact ⟨front, .key raw, back, st, whole, run,
        apply_eq_none_iff.mpr ⟨⟨raw, rfl⟩, starved.1, List.length_eq_zero_iff.mp starved.2⟩⟩

theorem buildJson_map {index : LineIndex} (built : buildJson content = some index) :
    index.map = (noted JsonWalk.apply tokenEntry {} (tokens content)).foldl
      (fun m e => m.insert e.1 e.2) ∅ := by
  have made := buildJson_eq content
  rw [built, Option.map_some, eq_comm, Option.map_eq_some_iff] at made
  obtain ⟨st, run, same⟩ := made
  rw [← same]
  exact @foldl_noted _ _ _ _ _ _ JsonWalk.map
    (fun m (e : KeyPath × Nat) => m.insert e.1 e.2) (fun _ _ _ => map_apply) _ _ _ run

private theorem exists_of_outsideTokens {c : Char} {later back : List Token} {raw : List Char}
    (whole : outsideTokens c ++ later = front ++ .key raw :: back) :
    ∃ more, front = outsideTokens c ++ more ∧ later = more ++ .key raw :: back := by
  rcases List.append_eq_append_iff.mp whole with ⟨more, before, behind⟩ | ⟨more, before, behind⟩
  · exact ⟨more, before, behind⟩
  · cases more with
    | nil => exact ⟨[], by rw [before]; simp, behind.symm⟩
    | cons t more =>
      obtain ⟨rfl, -⟩ := List.cons.inj behind
      have listed : Token.key raw ∈ outsideTokens c := by rw [before]; simp
      unfold outsideTokens at listed
      split_ifs at listed <;> simp at listed

private theorem count_outsideTokens (c : Char) :
    (outsideTokens c).count .lineFeed ≤ [c].count '\n' := by
  unfold outsideTokens
  split_ifs with feed
  · rw [feed]
    decide
  all_goals exact Nat.zero_le _

theorem exists_of_lex_eq {mode : Option (List Char × Bool)} {rest : List Char} {raw : List Char}
    {back : List Token} (whole : lex mode rest = front ++ .key raw :: back) :
    ∃ before after, rest = before ++ '"' :: after ∧
      front.count .lineFeed ≤ before.count '\n' := by
  induction rest generalizing mode front with
  | nil =>
    rw [lex] at whole
    exact absurd whole.symm (by simp)
  | cons c rest ih =>
    have further : ∀ {mode : Option (List Char × Bool)} {more : List Token},
        lex mode rest = more ++ .key raw :: back →
          front.count .lineFeed ≤ [c].count '\n' + more.count .lineFeed →
          ∃ before after, c :: rest = before ++ '"' :: after ∧
            front.count .lineFeed ≤ before.count '\n' := by
      intro mode more later fewer
      obtain ⟨before, after, rfl, counted⟩ := ih later
      refine ⟨c :: before, after, rfl, ?_⟩
      rw [← List.singleton_append, List.count_append]
      omega
    rcases mode with _ | ⟨text, _ | _⟩
    · rw [lex] at whole
      split_ifs at whole with quote
      · exact further whole (Nat.le_add_left _ _)
      · obtain ⟨more, rfl, later⟩ := exists_of_outsideTokens whole
        refine further later ?_
        rw [List.count_append]
        exact Nat.add_le_add_right (count_outsideTokens c) _
    · rw [lex] at whole
      split_ifs at whole with slash quote colon
      · exact further whole (Nat.le_add_left _ _)
      · cases front with
        | nil => exact ⟨[], rest, by rw [quote]; rfl, Nat.zero_le _⟩
        | cons t front =>
          obtain ⟨rfl, later⟩ := List.cons.inj whole
          refine further later ?_
          rw [List.count_cons_of_ne (by simp)]
          exact Nat.le_add_left _ _
      · exact further whole (Nat.le_add_left _ _)
      · exact further whole (Nat.le_add_left _ _)
    · rw [lex] at whole
      exact further whole (Nat.le_add_left _ _)

theorem line_le_of_mem_json {e : KeyPath × Nat}
    (member : e ∈ noted JsonWalk.apply tokenEntry {} (tokens content)) :
    e.2 ≤ (lines content).length := by
  obtain ⟨front, t, back, st, after, whole, run, step, noted⟩ := exists_of_mem_noted member
  cases t with
  | key raw =>
    obtain ⟨before, rest, rfl, fewer⟩ := exists_of_lex_eq whole
    have counted := TextLines.count_lt_length_lines before '"' rest
    rw [List.mem_singleton.mp noted]
    dsimp only
    rw [(pushKey_eq_some step).2.2.1, lineNo_eq run]
    exact (wrap_le _).trans (by omega)
  | _ => cases noted

/-! ### The index -/

def IsSafe (content : List Char) : Prop :=
  ∃ index, build content = some index ∧
    ∀ path line, index.map.get? path = some line → 1 ≤ line ∧ line ≤ (lines content).length

def Scannable (content : List Char) : Prop :=
  if isJson content then
    ∀ front raw back, tokens content = front ++ .key raw :: back → ¬ Starved front
  else ∀ raw ∈ lines content, ¬ IsBareDash raw

def ZeroesOverwritten (entries : List (KeyPath × Nat)) : Prop :=
  ∀ front path back, entries = front ++ (path, 0) :: back → ∃ e ∈ back, e.1 = path

theorem build_eq_none_iff : build content = none ↔ ¬ Scannable content := by
  unfold build Scannable isJson
  split_ifs
  · rw [buildJson_eq_none_iff]
    push Not
    rfl
  · rw [buildYaml_eq_none_iff]
    push Not
    rfl

theorem build_map {index : LineIndex} (built : build content = some index) :
    index.map = (entries content).foldl (fun m e => m.insert e.1 e.2) ∅ := by
  unfold build at built
  unfold entries isJson
  split_ifs at built ⊢
  · exact buildJson_map built
  · exact buildYaml_map built

theorem line_le_of_mem_entries {e : KeyPath × Nat} (member : e ∈ entries content) :
    e.2 ≤ (lines content).length := by
  unfold entries at member
  split_ifs at member
  · exact line_le_of_mem_json member
  · exact line_le_of_mem_yaml member

/-- **The index is built, with lines of the text only, exactly when** every key can be read and no
key on a line whose number is a multiple of 2 ^ 32 has the last word on its path. -/
theorem isSafe_iff : IsSafe content ↔ Scannable content ∧ ZeroesOverwritten (entries content) := by
  constructor
  · rintro ⟨index, built, proper⟩
    refine ⟨?_, fun front path back whole => ?_⟩
    · by_contra unreadable
      rw [build_eq_none_iff.mpr unreadable] at built
      cases built
    · by_contra last
      push Not at last
      have zero : index.map.get? path = some 0 := by
        rw [build_map built]
        exact SortedMap.get?_foldl_insert_eq_some.mpr ⟨front, back, whole, last⟩
      exact absurd (proper path 0 zero).1 (by decide)
  · rintro ⟨readable, written⟩
    obtain ⟨index, built⟩ := Option.ne_none_iff_exists'.mp
      (mt build_eq_none_iff.mp (not_not.mpr readable))
    refine ⟨index, built, fun path line found => ?_⟩
    rw [build_map built] at found
    obtain ⟨front, back, whole, last⟩ := SortedMap.get?_foldl_insert_eq_some.mp found
    constructor
    · by_contra zero
      obtain rfl : line = 0 := by omega
      obtain ⟨e, member, same⟩ := written front path back whole
      exact last e member same
    · have listed : (path, line) ∈ entries content := by rw [whole]; simp
      exact line_le_of_mem_entries listed

/-- An item of an array on lines of its own, and a JSON text whose brackets do not match, cannot be
read. -/
theorem isSafe_fails :
    ¬ IsSafe "tags:\n  -\n    name: a\n".toList ∧
      ¬ IsSafe ['\x7b', '[', '\x7b', ']', '"', 'a', '"', ':', '1'] := by
  have failed : ∀ {content : List Char}, ¬ Scannable content → ¬ IsSafe content := by
    rintro content unreadable ⟨index, built, -⟩
    rw [build_eq_none_iff.mpr unreadable] at built
    cases built
  refine ⟨failed fun readable => ?_, failed fun readable => ?_⟩
  · rw [Scannable, if_neg (by decide)] at readable
    exact readable [' ', ' ', '-'] (by decide) ⟨2, [], rfl, fun _ member => by cases member⟩
  · rw [Scannable, if_pos (by decide)] at readable
    exact readable [.objectStart, .arrayStart, .objectStart, .arrayEnd] ['a'] [] (by decide)
      (by unfold Starved; decide)

end Lain.Server.OpenapiLineIndex
