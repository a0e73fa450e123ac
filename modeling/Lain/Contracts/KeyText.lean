import Mathlib
import Lain.Contracts.Keys
import Lain.Foundation.SortedMap

/-!
# The text of a key

Every protocol writes its keys behind its own kind, and a key is read back from its text exactly
when the separators the reader cuts at stand nowhere else and no part that has to be there is
empty.
-/

namespace Lain.Foundation.Text

theorem stripPrefix_append (front s : String) : stripPrefix (front ++ s) front = some s := by
  have cut : ∀ cs rest : List Char, cs.isPrefixOf? (cs ++ rest) = some rest := by
    intro cs rest
    induction cs with
    | nil => rfl
    | cons c cs ih => simp [List.isPrefixOf?, ih]
  unfold stripPrefix
  rw [String.toList_append, cut, Option.map_some, String.ofList_toList]

section Cut

variable {c : Char} {pattern : String}

theorem notMem_of_splitOnce (single : pattern.toList = [c]) {s front rest : String}
    (cut : splitOnce s pattern = some (front, rest)) : c ∉ front.toList := by
  have chars : ∀ (cs front rest : List Char), cutChars [c] cs = some (front, rest) →
      c ∉ front := by
    intro cs
    induction cs with
    | nil => intro front rest found; cases found
    | cons x cs ih =>
      intro front rest found
      by_cases here : c = x
      · subst here
        have whole : cutChars [c] (c :: cs) = some ([], cs) :=
          @cutChars_append c [] List.not_mem_nil cs
        rw [whole] at found
        obtain ⟨rfl, _⟩ := Prod.mk.inj (Option.some.inj found)
        exact List.not_mem_nil
      · have later : cutChars [c] (x :: cs) =
            (cutChars [c] cs).map fun cut => (x :: cut.1, cut.2) := by
          simp [cutChars, List.isPrefixOf?, here]
        rw [later] at found
        obtain ⟨⟨front', rest'⟩, found', same⟩ := Option.map_eq_some_iff.mp found
        obtain ⟨rfl, _⟩ := Prod.mk.inj same
        exact fun member => (List.mem_cons.mp member).elim here (ih front' rest' found')
  unfold splitOnce at cut
  rw [single] at cut
  obtain ⟨⟨front', rest'⟩, found, same⟩ := Option.map_eq_some_iff.mp cut
  obtain ⟨rfl, _⟩ := Prod.mk.inj same
  rw [String.toList_ofList]
  exact chars s.toList front' rest' found

theorem notMem_of_uncut (single : pattern.toList = [c]) {s : String}
    (uncut : splitOnce s pattern = none) : c ∉ s.toList := by
  intro member
  obtain ⟨front, rest, whole, free⟩ := List.eq_append_cons_of_mem member
  unfold splitOnce at uncut
  rw [single, whole, cutChars_append free] at uncut
  cases uncut

end Cut

theorem of_mem_splitChars {c : Char} {s piece : List Char} (member : piece ∈ splitChars c s) :
    ∀ x ∈ piece, x ∈ s ∧ x ≠ c := by
  induction s generalizing piece with
  | nil =>
    obtain rfl := List.mem_singleton.mp member
    intro x none
    cases none
  | cons head rest ih =>
    rw [splitChars] at member
    split at member
    · rcases List.mem_cons.mp member with rfl | later
      · intro x none
        cases none
      · intro x inside
        obtain ⟨old, other⟩ := ih later x inside
        exact ⟨List.mem_cons_of_mem _ old, other⟩
    next other =>
        split at member
        · obtain rfl := List.mem_singleton.mp member
          intro x inside
          obtain rfl := List.mem_singleton.mp inside
          exact ⟨List.mem_cons_self, other⟩
        next first later pieces =>
            rcases List.mem_cons.mp member with rfl | old
            · intro x inside
              rcases List.mem_cons.mp inside with rfl | inside
              · exact ⟨List.mem_cons_self, other⟩
              · have here : first ∈ splitChars c rest := pieces ▸ List.mem_cons_self
                obtain ⟨old, other⟩ := ih here x inside
                exact ⟨List.mem_cons_of_mem _ old, other⟩
            · intro x inside
              have here : piece ∈ splitChars c rest := pieces ▸ List.mem_cons_of_mem _ old
              obtain ⟨old, other⟩ := ih here x inside
              exact ⟨List.mem_cons_of_mem _ old, other⟩

theorem of_mem_split {c : Char} {s piece : String} (member : piece ∈ split s c) :
    ∀ x ∈ piece.toList, x ∈ s.toList ∧ x ≠ c := by
  obtain ⟨chars, inside, rfl⟩ := List.mem_map.mp member
  rw [String.toList_ofList]
  exact of_mem_splitChars inside

end Lain.Foundation.Text

namespace Lain.Contracts

open Foundation

def ContractKey.WellFormed : ContractKey → Prop
  | .http _ _ => True
  | .topic broker name =>
    broker ≠ "" ∧ name ≠ "" ∧ '/' ∉ broker.toList ∧ ':' ∉ broker.toList
  | .rpc _ service method =>
    service ≠ "" ∧ method ≠ "" ∧ '/' ∉ service.toList ∧ ':' ∉ service.toList
  | .graphql _ _ => True
  | .webSocket route => route ≠ ""
  | .table name => name ≠ ""

/-! ### Labels -/

theorem parseMethodLabel_methodLabel (method : MethodSpec) :
    parseMethodLabel (methodLabel method) = some method := by
  cases method with
  | known method => cases method <;> decide
  | unknown => decide

theorem notMem_methodLabel (method : MethodSpec) : ' ' ∉ (methodLabel method).toList := by
  cases method with
  | known method => cases method <;> decide
  | unknown => decide

theorem parse_display_graphqlOp (op : GraphqlOp) : GraphqlOp.parse op.display = some op := by
  cases op <;> rfl

theorem notMem_display_graphqlOp (op : GraphqlOp) : ':' ∉ op.display.toList := by
  cases op <;> decide

theorem nonempty_eq_some {s s' : String} : nonempty s = some s' ↔ s ≠ "" ∧ s' = s := by
  unfold nonempty
  split_ifs with empty
  · simp [empty]
  · simp [empty, eq_comm]

/-! ### The reader makes keys that are in order -/

theorem wellFormed_of_parseTopicBody {body : String} {key : ContractKey}
    (parsed : parseTopicBody body = some key) : key.WellFormed := by
  unfold parseTopicBody at parsed
  split at parsed
  next broker name cut =>
      split_ifs at parsed with empty colon
      obtain rfl := Option.some.inj parsed
      have slash : '/' ∉ broker.toList := Text.notMem_of_splitOnce rfl cut
      exact ⟨fun none => empty (.inl none), fun none => empty (.inr none), slash,
        by simpa [Text.contains] using colon⟩
  next uncut =>
      have slash : '/' ∉ body.toList := Text.notMem_of_uncut rfl uncut
      split at parsed
      next broker name pieces =>
          split_ifs at parsed with empty
          obtain rfl := Option.some.inj parsed
          have inside := Text.of_mem_split (pieces ▸ List.mem_cons_self : broker ∈ Text.split body ':')
          exact ⟨fun none => empty (.inl none), fun none => empty (.inr none),
            fun member => slash (inside _ member).1, fun member => (inside _ member).2 rfl⟩
      · cases parsed

theorem wellFormed_of_parseRpcBody {body : String} {key : ContractKey}
    (parsed : parseRpcBody body = some key) : key.WellFormed := by
  unfold parseRpcBody at parsed
  split at parsed
  next service method cut =>
      split_ifs at parsed with empty colon
      obtain rfl := Option.some.inj parsed
      have slash : '/' ∉ service.toList := Text.notMem_of_splitOnce rfl cut
      exact ⟨fun none => empty (.inl none), fun none => empty (.inr none), slash,
        by simpa [Text.contains] using colon⟩
  next uncut =>
      have slash : '/' ∉ body.toList := Text.notMem_of_uncut rfl uncut
      split at parsed
      next system service method pieces =>
          split_ifs at parsed with empty grpc
          obtain rfl := Option.some.inj parsed
          have listed : service ∈ Text.split body ':' := by
            rw [pieces]
            exact List.mem_cons_of_mem _ List.mem_cons_self
          have inside := Text.of_mem_split listed
          exact ⟨fun none => empty (.inr (.inl none)), fun none => empty (.inr (.inr none)),
            fun member => slash (inside _ member).1, fun member => (inside _ member).2 rfl⟩
      · cases parsed

/-- **The reader makes keys that are in order.** -/
theorem ContractKey.wellFormed_of_fromStr {s : String} {key : ContractKey}
    (parsed : fromStr s = some key) : key.WellFormed := by
  unfold fromStr at parsed
  split at parsed
  · obtain ⟨cut, _, labelled⟩ := Option.bind_eq_some_iff.mp parsed
    obtain ⟨method, _, rfl⟩ := Option.map_eq_some_iff.mp labelled
    trivial
  split at parsed
  · exact wellFormed_of_parseTopicBody parsed
  split at parsed
  · exact wellFormed_of_parseRpcBody parsed
  split at parsed
  · obtain ⟨cut, _, named⟩ := Option.bind_eq_some_iff.mp parsed
    obtain ⟨op, _, rfl⟩ := Option.map_eq_some_iff.mp named
    trivial
  split at parsed
  · obtain ⟨route, filled, rfl⟩ := Option.map_eq_some_iff.mp parsed
    obtain ⟨filled, rfl⟩ := nonempty_eq_some.mp filled
    exact filled
  split at parsed
  · obtain ⟨route, filled, rfl⟩ := Option.map_eq_some_iff.mp parsed
    obtain ⟨filled, rfl⟩ := nonempty_eq_some.mp filled
    exact filled
  split at parsed
  · obtain ⟨name, filled, rfl⟩ := Option.map_eq_some_iff.mp parsed
    obtain ⟨filled, rfl⟩ := nonempty_eq_some.mp filled
    exact filled
  · cases parsed

/-! ### A key that is in order is read back -/

theorem parseTopicBody_slash {broker name : String}
    (wellFormed : (ContractKey.topic broker name).WellFormed) :
    parseTopicBody (broker ++ "/" ++ name) = some (.topic broker name) := by
  obtain ⟨broker', name', slash, colon⟩ := wellFormed
  unfold parseTopicBody
  have cut : Text.splitOnce (broker ++ "/" ++ name) "/" = some (broker, name) :=
    Text.splitOnce_append rfl slash name
  rw [cut]
  simp [broker', name', Text.contains, colon]

theorem parseRpcBody_slash {service method : String}
    (wellFormed : (ContractKey.rpc .grpc service method).WellFormed) :
    parseRpcBody (service ++ "/" ++ method) = some (.rpc .grpc service method) := by
  obtain ⟨service', method', slash, colon⟩ := wellFormed
  unfold parseRpcBody
  have cut : Text.splitOnce (service ++ "/" ++ method) "/" = some (service, method) :=
    Text.splitOnce_append rfl slash method
  rw [cut]
  simp [service', method', Text.contains, colon]

/-- **A key that is in order is read back from its text.** -/
theorem ContractKey.fromStr_display {key : ContractKey} (wellFormed : key.WellFormed) :
    fromStr key.display = some key := by
  cases key with
  | http method template =>
    have text : display (.http method template) =
        "http:" ++ (methodLabel method ++ " " ++ template) := by
      simp only [display, toString, ← String.append_assoc]
    have cut : Text.splitOnce (methodLabel method ++ " " ++ template) " " =
        some (methodLabel method, template) :=
      Text.splitOnce_append rfl (notMem_methodLabel method) template
    rw [text, fromStr, Text.stripPrefix_append]
    dsimp only
    rw [cut, Option.bind_some, parseMethodLabel_methodLabel]
    rfl
  | topic broker name =>
    have text : display (.topic broker name) = "topic:" ++ (broker ++ "/" ++ name) := by
      simp only [display, toString, ← String.append_assoc]
    have http : Text.stripPrefix ("topic:" ++ (broker ++ "/" ++ name)) "http:" = none := by
      simp [Text.stripPrefix, List.isPrefixOf?]
    rw [text, fromStr, http, Text.stripPrefix_append]
    exact parseTopicBody_slash wellFormed
  | rpc system service method =>
    cases system
    have text : display (.rpc .grpc service method) =
        "rpc:" ++ (service ++ "/" ++ method) := by
      simp only [display, toString, ← String.append_assoc]
    have other : ∀ kind ∈ ["http:", "topic:"],
        Text.stripPrefix ("rpc:" ++ (service ++ "/" ++ method)) kind = none := by
      simp [Text.stripPrefix, List.isPrefixOf?]
    rw [text, fromStr, other "http:" (by simp), other "topic:" (by simp),
      Text.stripPrefix_append]
    exact parseRpcBody_slash wellFormed
  | graphql op field =>
    have text : display (.graphql op field) =
        "graphql:" ++ (op.display ++ ":" ++ field) := by
      simp only [display, toString, ← String.append_assoc]
    have other : ∀ kind ∈ ["http:", "topic:", "rpc:"],
        Text.stripPrefix ("graphql:" ++ (op.display ++ ":" ++ field)) kind = none := by
      simp [Text.stripPrefix, List.isPrefixOf?]
    have cut : Text.splitOnce (op.display ++ ":" ++ field) ":" = some (op.display, field) :=
      Text.splitOnce_append rfl (notMem_display_graphqlOp op) field
    rw [text, fromStr, other "http:" (by simp), other "topic:" (by simp),
      other "rpc:" (by simp), Text.stripPrefix_append]
    dsimp only
    rw [cut, Option.bind_some, parse_display_graphqlOp]
    rfl
  | webSocket route =>
    have text : display (.webSocket route) = "websocket:" ++ route := by
      simp only [display, toString]
    have other : ∀ kind ∈ ["http:", "topic:", "rpc:", "graphql:"],
        Text.stripPrefix ("websocket:" ++ route) kind = none := by
      simp [Text.stripPrefix, List.isPrefixOf?]
    rw [text, fromStr, other "http:" (by simp), other "topic:" (by simp),
      other "rpc:" (by simp), other "graphql:" (by simp), Text.stripPrefix_append]
    dsimp only
    rw [nonempty_eq_some.mpr ⟨wellFormed, rfl⟩]
    rfl
  | table name =>
    have text : display (.table name) = "table:" ++ name := by
      simp only [display, toString]
    have other : ∀ kind ∈ ["http:", "topic:", "rpc:", "graphql:", "websocket:", "ws:"],
        Text.stripPrefix ("table:" ++ name) kind = none := by
      simp [Text.stripPrefix, List.isPrefixOf?]
    rw [text, fromStr, other "http:" (by simp), other "topic:" (by simp),
      other "rpc:" (by simp), other "graphql:" (by simp), other "websocket:" (by simp),
      other "ws:" (by simp), Text.stripPrefix_append]
    dsimp only
    rw [nonempty_eq_some.mpr ⟨wellFormed, rfl⟩]
    rfl

/-! ### The two readers of the configuration -/

/-- **The readers agree.** A binding and a declared provider read one text as one key. -/
theorem parseContractKey_eq : parseContractKey = declaredProviderKey := by
  funext s
  unfold parseContractKey declaredProviderKey withKind
  congr 2
  simp only [List.any_cons, List.any_nil]
  grind

theorem parseContractKey_display (key : ContractKey) :
    parseContractKey key.display = ContractKey.fromStr key.display := by
  have named : ["http:", "topic:", "graphql:", "rpc:", "ws:", "websocket:", "table:"].any
      (Text.startsWith key.display) = true := by
    cases key <;> simp [ContractKey.display, toString, Text.startsWith]
  unfold parseContractKey withKind
  rw [if_pos named]

/-! ### The text of keys -/

/-- **A key and its text.** A key is read back from its text exactly when it is in order, every
key that is read is read back, and both readers of the configuration make of the text of a key the
key itself, so that they find whatever a table holds under it. -/
theorem ContractKey.displayed_form :
    (∀ key : ContractKey, fromStr key.display = some key ↔ key.WellFormed) ∧
      (∀ s key, fromStr s = some key → fromStr key.display = some key) ∧
      (∀ s, parseContractKey s = declaredProviderKey s) ∧
      ∀ key : ContractKey, key.WellFormed →
        parseContractKey key.display = some key ∧ declaredProviderKey key.display = some key := by
  refine ⟨fun key => ⟨wellFormed_of_fromStr, fromStr_display⟩,
    fun s key parsed => fromStr_display (wellFormed_of_fromStr parsed),
    fun s => congrFun parseContractKey_eq s, fun key wellFormed => ?_⟩
  rw [← parseContractKey_eq]
  have same := (parseContractKey_display key).trans (fromStr_display wellFormed)
  exact ⟨same, same⟩

/-- The parts at the short form of a WebSocket key and at a topic with a colon in its name. -/
theorem ContractKey.displayed_form_topic :
    fromStr (display (.webSocket "/live")) = some (.webSocket "/live") ∧
      parseContractKey (display (.topic "redis" "orders:created")) =
        some (.topic "redis" "orders:created") :=
  ⟨displayed_form.2.1 "ws:/live" (.webSocket "/live") (by decide),
    (displayed_form.2.2.2 (.topic "redis" "orders:created")
      ⟨by decide, by decide, by decide, by decide⟩).1⟩

end Lain.Contracts
