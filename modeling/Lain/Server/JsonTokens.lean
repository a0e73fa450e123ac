import Mathlib
import Lain.Server.OpenapiLineIndex

/-!
# The tokens of the JSON line index

What the reader of a JSON text acts on: line feeds, brackets and commas outside strings, and the
strings with a colon behind them.
-/

namespace Lain.Server.OpenapiLineIndex

open Foundation
open Foundation.ByteCursor (bytes slice dropBytes At)

/-- What the reader of JSON acts on. -/
inductive Token where
  | lineFeed | objectStart | objectEnd | arrayStart | arrayEnd | comma
  | key (raw : List Char)
  deriving DecidableEq

/-- Act on a token. -/
def JsonWalk.apply (st : JsonWalk) : Token → Option JsonWalk
  | .key raw => st.pushKey (unescapeJsonString raw)
  | .lineFeed => some (st.outside 10)
  | .objectStart => some (st.outside 123)
  | .objectEnd => some (st.outside 125)
  | .arrayStart => some (st.outside 91)
  | .arrayEnd => some (st.outside 93)
  | .comma => some (st.outside 44)

def keyBlank (c : Char) : Bool :=
  c = ' ' || c = '\t'

def outsideTokens (c : Char) : List Token :=
  if c = '\n' then [.lineFeed]
  else if c = '\x7b' then [.objectStart]
  else if c = '\x7d' then [.objectEnd]
  else if c = '[' then [.arrayStart]
  else if c = ']' then [.arrayEnd]
  else if c = ',' then [.comma]
  else []

def colonNext (rest : List Char) : Bool :=
  (rest.dropWhile keyBlank).head? = some ':'

def lex : Option (List Char × Bool) → List Char → List Token
  | _, [] => []
  | none, c :: rest =>
    if c = '"' then lex (some ([], false)) rest else outsideTokens c ++ lex none rest
  | some (raw, true), c :: rest => lex (some (raw ++ [c], false)) rest
  | some (raw, false), c :: rest =>
    if c = '\\' then lex (some (raw ++ [c], true)) rest
    else if c = '"' then (if colonNext rest then [.key raw] else []) ++ lex none rest
    else lex (some (raw ++ [c], false)) rest

def tokens (content : List Char) : List Token :=
  lex none content

variable {content rest : List Char} {i : Nat} {st : JsonState}

/-! ### Bytes and characters -/

theorem buildJsonFrom_byte {b : UInt8} (found : (bytes content)[i]? = some b) :
    buildJsonFrom content i st =
      if st.inString then
        if st.escape then buildJsonFrom content (i + 1) { st with escape := false }
        else if b = 92 then buildJsonFrom content (i + 1) { st with escape := true }
        else if b = 34 then
          (st.keyStart.bind fun start => slice content start i).bind fun raw =>
            let j := i + 1 + (((bytes content).drop (i + 1)).takeWhile isKeyBlank).length
            if (bytes content)[j]? = some 58 then
              (st.pushKey (unescapeJsonString raw)).bind fun walk =>
                buildJsonFrom content (j + 1) { st with toJsonWalk := walk, inString := false }
            else buildJsonFrom content (i + 1) { st with inString := false }
        else buildJsonFrom content (i + 1) st
      else if b = 34 then
        buildJsonFrom content (i + 1) { st with inString := true, keyStart := some (i + 1) }
      else buildJsonFrom content (i + 1) { st with toJsonWalk := st.outside b } := by
  obtain ⟨inside, rfl⟩ := List.getElem?_eq_some_iff.mp found
  rw [buildJsonFrom, dif_pos inside]
  dsimp only
  split_ifs <;> try rfl
  · cases st.keyStart.bind fun start => slice content start i with
    | none => rfl
    | some raw =>
      dsimp only [Option.bind_some]
      cases st.pushKey (unescapeJsonString raw) <;> rfl
  · cases st.keyStart.bind fun start => slice content start i <;> rfl

theorem buildJsonFrom_end (here : At content i []) : buildJsonFrom content i st = some st := by
  have size := here.add_length
  rw [ByteCursor.bytes_nil, List.length_nil, Nat.add_zero] at size
  rw [buildJsonFrom, dif_neg (by omega)]

theorem outside_wide {walk : JsonWalk} {b : UInt8} (wide : 128 ≤ b.toNat) :
    walk.outside b = walk := by
  have other : ∀ n : UInt8, n.toNat < 128 → b ≠ n := fun n small same => by
    rw [same] at wide
    omega
  unfold JsonWalk.outside
  rw [if_neg (other 10 (by decide)), if_neg (other 123 (by decide)), if_neg (other 91 (by decide)),
    if_neg (other 125 (by decide)), if_neg (other 93 (by decide)), if_neg (other 44 (by decide))]

theorem buildJsonFrom_wideByte {b : UInt8} (found : (bytes content)[i]? = some b)
    (wide : 128 ≤ b.toNat) (fresh : st.inString = false → st.escape = false) :
    buildJsonFrom content i st = buildJsonFrom content (i + 1) { st with escape := false } := by
  have other : ∀ n : UInt8, n.toNat < 128 → b ≠ n := fun n small same => by
    rw [same] at wide
    omega
  rw [buildJsonFrom_byte found, if_neg (other 92 (by decide)), if_neg (other 34 (by decide)),
    if_neg (other 34 (by decide)), outside_wide wide]
  obtain ⟨walk, inString, escape, start⟩ := st
  cases inString with
  | false =>
    obtain rfl : escape = false := fresh rfl
    rfl
  | true => cases escape <;> rfl

theorem buildJsonFrom_wide {c : Char} (here : At content i (c :: rest)) (wide : 128 ≤ c.toNat)
    (fresh : st.inString = false → st.escape = false) :
    buildJsonFrom content i st =
      buildJsonFrom content (i + c.utf8Size) { st with escape := false } := by
  have walk : ∀ n, n + 1 ≤ c.utf8Size → buildJsonFrom content i st =
      buildJsonFrom content (i + (n + 1)) { st with escape := false } := by
    intro n
    have inside : ∀ k, k < c.utf8Size → ∃ b, (bytes content)[i + k]? = some b ∧
        128 ≤ b.toNat := by
      intro k small
      have within : i + k < (bytes content).length := by
        have whole := here.add_length
        rw [ByteCursor.bytes_cons, List.length_append, String.length_utf8EncodeChar] at whole
        omega
      exact ⟨_, List.getElem?_eq_getElem within,
        here.le_toNat wide small (List.getElem?_eq_getElem within)⟩
    induction n with
    | zero =>
      intro small
      obtain ⟨b, found, high⟩ := inside 0 small
      exact buildJsonFrom_wideByte found high fresh
    | succ n ih =>
      intro small
      obtain ⟨b, found, high⟩ := inside (n + 1) small
      rw [ih (by omega), buildJsonFrom_wideByte found high fun _ => rfl, Nat.add_assoc]
  have width := c.utf8Size_pos
  have last := walk (c.utf8Size - 1) (by omega)
  rwa [Nat.sub_add_cancel width] at last

theorem foldlM_outsideTokens {c : Char} (narrow : c.toNat < 128) (walk : JsonWalk) :
    (outsideTokens c).foldlM JsonWalk.apply walk = some (walk.outside c.val.toUInt8) := by
  have other : ∀ (d : Char) (b : UInt8), d.val.toUInt8 = b → d.toNat < 128 → c ≠ d →
      c.val.toUInt8 ≠ b :=
    fun d b byte ascii different same =>
      different ((ByteCursor.toUInt8_eq_iff narrow ascii).mp (same.trans byte.symm))
  unfold outsideTokens
  split_ifs with feed open_ close start stop comma
  · rw [feed]; rfl
  · rw [open_]; rfl
  · rw [close]; rfl
  · rw [start]; rfl
  · rw [stop]; rfl
  · rw [comma]; rfl
  · unfold JsonWalk.outside
    rw [if_neg (other '\n' 10 rfl (by decide) feed),
      if_neg (other '\x7b' 123 rfl (by decide) open_),
      if_neg (other '[' 91 rfl (by decide) start),
      if_neg (other '\x7d' 125 rfl (by decide) close),
      if_neg (other ']' 93 rfl (by decide) stop),
      if_neg (other ',' 44 rfl (by decide) comma)]
    rfl

theorem outsideTokens_wide {c : Char} (wide : 128 ≤ c.toNat) : outsideTokens c = [] := by
  have other : ∀ d : Char, d.toNat < 128 → c ≠ d := fun d ascii same => by
    rw [same] at wide
    omega
  unfold outsideTokens
  rw [if_neg (other '\n' (by decide)), if_neg (other '\x7b' (by decide)),
    if_neg (other '\x7d' (by decide)), if_neg (other '[' (by decide)),
    if_neg (other ']' (by decide)), if_neg (other ',' (by decide))]

theorem exists_blanks (rest : List Char) :
    ∃ run after, rest = run ++ after ∧ rest.dropWhile keyBlank = after ∧
      (∀ c ∈ run, keyBlank c = true) ∧
      ((bytes rest).takeWhile isKeyBlank).length = run.length ∧
      (bytes run).length = run.length ∧
      ((bytes after)[0]? = some 58 ↔ after.head? = some ':') := by
  have blanks : ∀ c : Char, keyBlank c = true ↔ c = ' ' ∨ c = '\t' := fun c => by
    simp [keyBlank]
  have byteBlanks : ∀ b : UInt8, isKeyBlank b = true ↔ b = 32 ∨ b = 9 := fun b => by
    simp [isKeyBlank]
  obtain ⟨size, width⟩ := @ByteCursor.length_takeWhile_bytes keyBlank isKeyBlank
    (fun c blank => by rcases (blanks c).mp blank with rfl | rfl <;> decide)
    (fun b blank => by rcases (byteBlanks b).mp blank with rfl | rfl <;> decide)
    (fun c narrow => Bool.eq_iff_iff.mpr ((byteBlanks _).trans (.trans (or_congr
      (@ByteCursor.toUInt8_eq_iff c ' ' narrow (by decide))
      (@ByteCursor.toUInt8_eq_iff c '\t' narrow (by decide))) (blanks c).symm))) rest
  refine ⟨rest.takeWhile keyBlank, rest.dropWhile keyBlank, List.takeWhile_append_dropWhile.symm,
    rfl, fun c member => List.mem_takeWhile_imp member, size, width, ?_⟩
  cases rest.dropWhile keyBlank with
  | nil => exact iff_of_false (fun found => by cases found) (fun found => by cases found)
  | cons c after =>
    have here := ByteCursor.at_zero (c :: after)
    rw [List.head?_cons, Option.some_inj, List.getElem?_eq_getElem here.lt_length,
      Option.some_inj]
    exact @ByteCursor.At.getElem_eq_iff _ _ _ _ ':' here (by decide) here.lt_length

theorem buildJsonFrom_pass {run : List Char} (pass : ∀ c ∈ run, keyBlank c = true ∨ c = ':')
    (here : At content i (run ++ rest)) (out : st.inString = false) :
    buildJsonFrom content i st = buildJsonFrom content (i + run.length) st := by
  induction run generalizing i with
  | nil => rfl
  | cons c run ih =>
    obtain ⟨now, later⟩ := List.forall_mem_cons.mp pass
    have shape : c = ' ' ∨ c = '\t' ∨ c = ':' := by
      rcases now with blank | colon
      · simp only [keyBlank, Bool.or_eq_true, decide_eq_true_eq] at blank
        exact blank.imp_right .inl
      · exact .inr (.inr colon)
    have narrow : c.toNat < 128 := by rcases shape with rfl | rfl | rfl <;> decide
    have idle : st.outside c.val.toUInt8 = st.toJsonWalk := by
      rcases shape with rfl | rfl | rfl <;> rfl
    have plain : c.val.toUInt8 ≠ 34 := by rcases shape with rfl | rfl | rfl <;> decide
    have next := here.next
    rw [ByteCursor.utf8Size_ascii narrow] at next
    rw [buildJsonFrom_byte (here.ascii narrow), out, if_neg (by decide), if_neg plain, idle,
      List.length_cons, Nat.add_comm run.length, ← Nat.add_assoc, ← ih later next]
    obtain ⟨walk, inString, escape, start⟩ := st
    obtain rfl : inString = false := out
    rfl

theorem buildJsonFrom_quote {start : Nat} {raw : List Char} (walk : JsonWalk)
    (here : At content i ('"' :: rest)) (whole : At content start (raw ++ '"' :: rest)) :
    buildJsonFrom content i
        { toJsonWalk := walk, inString := true, escape := false, keyStart := some start } =
      (if colonNext rest then walk.pushKey (unescapeJsonString raw) else some walk).bind fun walk =>
        buildJsonFrom content (i + 1)
          { toJsonWalk := walk, inString := false, escape := false, keyStart := some start } := by
  have cut : slice content start i = some raw := by
    have size := (At.append whole).add_length
    have sameEnd : start + (bytes raw).length = i := by
      have other := here.add_length
      omega
    rw [← sameEnd]
    exact whole.slice
  have next : At content (i + 1) rest := here.next
  obtain ⟨run, after, rfl, dropped, blanks, size, width, colon⟩ := exists_blanks rest
  have there : At content (i + 1 + run.length) after := width ▸ next.append
  have seen : (bytes content)[i + 1 + run.length]? = some 58 ↔ after.head? = some ':' := by
    rw [← colon, ← there.getElem? 0]
    rfl
  rw [buildJsonFrom_byte (here.ascii (by decide)), if_pos rfl, if_neg Bool.false_ne_true,
    if_neg (by decide), if_pos (show '"'.val.toUInt8 = 34 from rfl), Option.bind_some, cut,
    Option.bind_some, next.drop_bytes, size, colonNext, dropped]
  dsimp only
  by_cases colonHere : after.head? = some ':'
  · obtain ⟨tail, rfl⟩ : ∃ tail, after = ':' :: tail := List.head?_eq_some_iff.mp colonHere
    rw [if_pos (seen.mpr colonHere), if_pos (by simp)]
    cases walk.pushKey (unescapeJsonString raw) with
    | none => rfl
    | some walk =>
      have past : At content (i + 1) ((run ++ [':']) ++ tail) := by
        rw [List.append_assoc]
        exact next
      rw [Option.bind_some, Option.bind_some, buildJsonFrom_pass _ past rfl, List.length_append,
        List.length_singleton, Nat.add_assoc (i + 1)]
      intro c member
      rcases List.mem_append.mp member with blank | colon
      · exact .inl (blanks c blank)
      · exact .inr (List.mem_singleton.mp colon)
  · rw [if_neg (mt seen.mp colonHere), if_neg (by simpa using colonHere), Option.bind_some]

/-- **Reading the bytes of a text is applying its tokens**, from the outside and from inside a
string. -/
theorem buildJsonFrom_eq (here : At content i rest) :
    (st.inString = false → st.escape = false →
        (buildJsonFrom content i st).map JsonState.toJsonWalk =
          (lex none rest).foldlM JsonWalk.apply st.toJsonWalk) ∧
      ∀ start raw, st.inString = true → st.keyStart = some start → At content start (raw ++ rest) →
        (buildJsonFrom content i st).map JsonState.toJsonWalk =
          (lex (some (raw, st.escape)) rest).foldlM JsonWalk.apply st.toJsonWalk := by
  induction rest generalizing i st with
  | nil =>
    rw [buildJsonFrom_end here]
    exact ⟨fun _ _ => rfl, fun _ _ _ _ _ => by cases st.escape <;> rfl⟩
  | cons c rest ih =>
    have next := here.next
    by_cases wide : 128 ≤ c.toNat
    · have plain : ∀ d : Char, d.toNat < 128 → c ≠ d := fun d ascii same => by
        rw [same] at wide
        omega
      constructor
      · intro out fresh
        rw [buildJsonFrom_wide here wide fun _ => fresh, lex, if_neg (plain '"' (by decide)),
          outsideTokens_wide wide, List.nil_append]
        exact (ih next).1 out rfl
      · intro start raw within begun whole
        have longer : At content start (raw ++ [c] ++ rest) := by
          rw [List.append_assoc]
          exact whole
        rw [buildJsonFrom_wide here wide fun out => by rw [within] at out; cases out]
        have later := (@ih _ { st with escape := false } next).2 start (raw ++ [c]) within
          begun longer
        rw [later]
        cases st.escape with
        | true => rw [lex]
        | false => rw [lex, if_neg (plain '\\' (by decide)), if_neg (plain '"' (by decide))]
    · have narrow : c.toNat < 128 := by omega
      have byte := here.ascii narrow
      have isQuote : c.val.toUInt8 = 34 ↔ c = '"' :=
        ByteCursor.toUInt8_eq_iff (d := '"') narrow (by decide)
      have isEscape : c.val.toUInt8 = 92 ↔ c = '\\' :=
        ByteCursor.toUInt8_eq_iff (d := '\\') narrow (by decide)
      rw [ByteCursor.utf8Size_ascii narrow] at next
      obtain ⟨walk, inString, escape, keyStart⟩ := st
      constructor
      · rintro ⟨⟩ ⟨⟩
        rw [buildJsonFrom_byte byte, if_neg Bool.false_ne_true, lex]
        by_cases quote : c = '"'
        · rw [if_pos quote, if_pos (isQuote.mpr quote)]
          exact (ih next).2 (i + 1) [] rfl rfl next
        · rw [if_neg quote, if_neg (mt isQuote.mp quote), List.foldlM_append,
            foldlM_outsideTokens narrow]
          exact (ih next).1 rfl rfl
      · rintro start raw ⟨⟩ ⟨⟩ whole
        have longer : At content start (raw ++ [c] ++ rest) := by
          rw [List.append_assoc]
          exact whole
        cases escape with
        | true =>
          rw [buildJsonFrom_byte byte, if_pos rfl, if_pos rfl, lex]
          exact (ih next).2 start (raw ++ [c]) rfl rfl longer
        | false =>
          rw [lex]
          by_cases quote : c = '"'
          · obtain rfl := quote
            rw [if_neg (by decide), if_pos rfl, buildJsonFrom_quote walk here whole,
              List.foldlM_append]
            have onward : ∀ walk : JsonWalk, (buildJsonFrom content (i + 1)
                { toJsonWalk := walk, inString := false, escape := false,
                  keyStart := some start }).map JsonState.toJsonWalk =
                (lex none rest).foldlM JsonWalk.apply walk :=
              fun _ => (ih next).1 rfl rfl
            split_ifs
            · rw [List.foldlM_cons, JsonWalk.apply]
              cases walk.pushKey (unescapeJsonString raw) with
              | none => rfl
              | some walk => exact onward walk
            · exact onward walk
          · rw [buildJsonFrom_byte byte, if_pos rfl, if_neg Bool.false_ne_true,
              if_neg (mt isQuote.mp quote), if_neg quote]
            by_cases slash : c = '\\'
            · rw [if_pos slash, if_pos (isEscape.mpr slash)]
              exact (ih next).2 start (raw ++ [c]) rfl rfl longer
            · rw [if_neg slash, if_neg (mt isEscape.mp slash)]
              exact (ih next).2 start (raw ++ [c]) rfl rfl longer

theorem buildJson_eq (content : List Char) :
    (buildJson content).map LineIndex.map =
      ((tokens content).foldlM JsonWalk.apply {}).map JsonWalk.map := by
  have read := (@buildJsonFrom_eq content content 0 {} (ByteCursor.at_zero content)).1 rfl rfl
  rw [tokens, ← read, buildJson]
  cases buildJsonFrom content 0 {} <;> rfl

end Lain.Server.OpenapiLineIndex
