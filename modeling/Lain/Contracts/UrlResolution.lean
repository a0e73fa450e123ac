import Mathlib
import Lain.Foundation.TextEnds
import Lain.Contracts.Validate

/-!
# The service of a URL literal

The host of a URL literal is resolved twice: by the join, which reads the host when it normalizes
the URL and takes the first service that declares a matching host, and by the scan for references,
which reads the host and the port and collects every service that claims them.
-/

namespace Lain.Contracts

open Foundation

/-! ### The endpoint of a URL -/

structure UrlEndpoint where
  host : String
  port : Option Nat
  deriving DecidableEq

def toAsciiLowercase (s : String) : String :=
  String.ofList (s.toList.map Char.toLower)

def defaultPort (scheme : String) : Option Nat :=
  if scheme = "http" then some 80 else if scheme = "https" then some 443 else none

def parsePort (s : String) : Option Nat :=
  (Text.parseNat s).filter fun n => decide (n < 2 ^ 16)

def splitHostPort (authority : String) : Option (String × Option Nat) :=
  match Text.stripPrefix authority "[" with
  | some rest =>
    (Text.splitOnce rest "]").bind fun cut =>
      let host := "[" ++ cut.1 ++ "]"
      match Text.stripPrefix cut.2 ":" with
      | none => if cut.2 = "" then some (host, none) else none
      | some p => (parsePort p).map fun port => (host, some port)
  | none =>
    match Text.rsplitOnce authority ':' with
    | some (host, port) =>
      if !Text.contains host ':' ∧ port ≠ "" then
        (parsePort port).map fun port => (host, some port)
      else none
    | none => some (authority, none)

def endpointWithDefault (scheme host : String) (explicit : Option Nat) : UrlEndpoint where
  host := host
  port := explicit.or (defaultPort (toAsciiLowercase scheme))

def beforeDelimiter (s : String) : String :=
  String.ofList (s.toList.takeWhile fun c => !(c = '/' || c = '?' || c = '#'))

def withoutUserinfo (s : String) : String :=
  ((Text.rsplitOnce s '@').map Prod.snd).getD s

def endpointOfUrl (url : String) : Option UrlEndpoint :=
  (Text.splitOnce url "://").bind fun cut =>
    (splitHostPort (withoutUserinfo (beforeDelimiter cut.2))).map fun authority =>
      endpointWithDefault cut.1 authority.1 authority.2

def endpointPattern (url : String) : Option String :=
  (endpointOfUrl url).map fun ep =>
    match ep.port with
    | some p => s!"{ep.host}:{p}"
    | none => ep.host

/-- A declared host matches an endpoint; a declared port has to be the effective one. -/
def endpointMatches (pattern : String) (ep : UrlEndpoint) : Bool :=
  match splitHostPort pattern with
  | none => false
  | some (host, port) =>
    (port.isNone || decide (ep.port = port)) && hostMatchesPattern host ep.host

/-! ### The services of an environment -/

structure EnvScope where
  claims : List (String × ServiceName)

namespace EnvScope

/-- The declared hosts, and those of the URLs the declared variables have. -/
def new (services : List ServiceDecl) (params : SortedMap String String) : EnvScope where
  claims := services.flatMap fun s =>
    s.hosts.map (fun h => (h, s.name)) ++
      s.env.filterMap fun var =>
        ((params.get? var).bind endpointPattern).map fun pattern => (pattern, s.name)

def claimants (scope : EnvScope) (ep : UrlEndpoint) : List ServiceName :=
  ((scope.claims.filter fun claim => endpointMatches claim.1 ep).map Prod.snd).foldl appendNew []

end EnvScope

/-! ### The two resolvers -/

def joinerRoute (isAlphanumeric : Char → Bool) (config : ContractFederationConfig)
    (consumer : ConsumerFact) (url : String) : Option ServiceName :=
  targetServiceFromHosts
    { consumer with url := normalize isAlphanumeric [.literal url] } config

def scopeRoute (scope : EnvScope) (url : String) : List ServiceName :=
  match endpointOfUrl url with
  | some ep => scope.claimants { ep with host := toAsciiLowercase ep.host }
  | none => []

/-- **The two resolvers agree** in every order of the services: the join finds a service exactly
when it is the only one the scan finds. -/
def ResolversAgree (isAlphanumeric : Char → Bool) (config : ContractFederationConfig)
    (params : SortedMap String String) (consumer : ConsumerFact) (url : String) : Prop :=
  ∀ services : List ServiceDecl, services.Perm config.services → ∀ name,
    joinerRoute isAlphanumeric { config with services := services } consumer url = some name ↔
      scopeRoute (.new services params) url = [name]

/-! ### URL literals -/

inductive UrlHost where
  | name (text : String)
  | bracketed (text : String)
  deriving DecidableEq

namespace UrlHost

def text : UrlHost → String
  | .name text => text
  | .bracketed text => "[" ++ text ++ "]"

def delimiters : List Char := ['/', '?', '#', '@', '[', ']']

def Plain : UrlHost → Prop
  | .name text => text ≠ "" ∧ (∀ c ∈ text.toList, c ∉ delimiters) ∧ ':' ∉ text.toList
  | .bracketed text => (∀ c ∈ text.toList, c ∉ delimiters) ∧ ':' ∈ text.toList

end UrlHost

/-- An absolute `http` or `https` URL by its parts. -/
structure UrlLiteral where
  scheme : String
  userinfo : Option String
  host : UrlHost
  port : Option String
  rest : String
  http : toAsciiLowercase scheme = "http" ∨ toAsciiLowercase scheme = "https"
  userinfoPlain : ∀ info ∈ userinfo, ∀ c ∈ info.toList, c ∉ ['/', '?', '#']
  hostPlain : host.Plain
  portNumber : ∀ p ∈ port, (∀ c ∈ p.toList, c.isDigit = true) ∧ (parsePort p).isSome = true
  restBegins : ∀ c ∈ rest.toList.head?, c ∈ ['/', '?', '#']

namespace UrlLiteral

def authority (u : UrlLiteral) : String :=
  u.host.text ++ (u.port.map fun p => ":" ++ p).getD ""

def front (u : UrlLiteral) : String :=
  (u.userinfo.map fun info => info ++ "@").getD ""

/-- The text of the URL. -/
def text (u : UrlLiteral) : String :=
  u.scheme ++ "://" ++ (u.front ++ u.authority ++ u.rest)

/-- The endpoint of the URL, its host in lower case. -/
def endpoint (u : UrlLiteral) : UrlEndpoint where
  host := toAsciiLowercase u.host.text
  port := (u.port.bind parsePort).or (defaultPort (toAsciiLowercase u.scheme))

def readHost (u : UrlLiteral) : String :=
  match u.host, u.port with
  | .bracketed text, none => "[" ++ ((Text.rsplitOnce text ':').map Prod.fst).getD text
  | host, _ => host.text

/-- A service declares a host that matches the one the normalizer reads. -/
def Declares (u : UrlLiteral) (s : ServiceDecl) : Prop :=
  ∃ pattern ∈ s.hosts, hostMatchesPattern pattern (toAsciiLowercase u.readHost) = true

/-- A service claims the endpoint, by a declared host or a variable. -/
def Claims (u : UrlLiteral) (scope : EnvScope) (name : ServiceName) : Prop :=
  ∃ pattern, (pattern, name) ∈ scope.claims ∧ endpointMatches pattern u.endpoint = true

/-! ### Reading the text -/

variable (u : UrlLiteral)

theorem scheme_free {c : Char} (member : c ∈ u.scheme.toList) : c ≠ ':' ∧ c ≠ '/' := by
  have lower : c.toLower ∈ "http".toList ∨ c.toLower ∈ "https".toList := by
    have inside : c.toLower ∈ (toAsciiLowercase u.scheme).toList := by
      unfold toAsciiLowercase
      rw [String.toList_ofList]
      exact List.mem_map_of_mem member
    obtain http | https := u.http
    · exact .inl (http ▸ inside)
    · exact .inr (https ▸ inside)
  constructor
  · rintro rfl
    revert lower
    decide
  · rintro rfl
    revert lower
    decide

theorem scheme_ne : u.scheme.toList ≠ [] := by
  intro empty
  have bare : toAsciiLowercase u.scheme = "" := by
    unfold toAsciiLowercase
    rw [empty]
    rfl
  obtain http | https := u.http
  · rw [bare] at http
    exact absurd http (by decide)
  · rw [bare] at https
    exact absurd https (by decide)

theorem splitOnce_text :
    Text.splitOnce u.text "://" = some (u.scheme, u.front ++ u.authority ++ u.rest) := by
  have free : ':' ∉ u.scheme.toList := fun member => (u.scheme_free member).1 rfl
  have cut : Text.cutChars [':', '/', '/']
      (u.scheme.toList ++ ([':', '/', '/'] ++ (u.front ++ u.authority ++ u.rest).toList)) =
        some (u.scheme.toList, (u.front ++ u.authority ++ u.rest).toList) :=
    Text.cutChars_append_pattern free _
  unfold Text.splitOnce text
  rw [String.toList_append, String.toList_append, List.append_assoc,
    show "://".toList = [':', '/', '/'] from rfl, cut, Option.map_some, String.ofList_toList,
    String.ofList_toList]

theorem authority_free {c : Char} (member : c ∈ u.authority.toList) :
    c ∉ ['/', '?', '#', '@'] := by
  have plain := u.hostPlain
  unfold authority at member
  rw [String.toList_append] at member
  obtain inside | inside := List.mem_append.mp member
  · have free : c = '[' ∨ c = ']' ∨ c ∉ UrlHost.delimiters := by
      cases host : u.host with
      | name text =>
        rw [host] at plain inside
        exact .inr (.inr (plain.2.1 c inside))
      | bracketed text =>
        rw [host] at plain inside
        unfold UrlHost.text at inside
        simp only [String.toList_append, List.mem_append] at inside
        obtain (opening | inner) | closing := inside
        · exact .inl (List.mem_singleton.mp opening)
        · exact .inr (.inr (plain.1 c inner))
        · exact .inr (.inl (List.mem_singleton.mp closing))
    obtain rfl | rfl | free := free
    · decide
    · decide
    · exact fun listed => free (by
        simp only [List.mem_cons, List.not_mem_nil, or_false] at listed
        unfold UrlHost.delimiters
        rcases listed with rfl | rfl | rfl | rfl <;> decide)
  · cases port : u.port with
    | none =>
      rw [port] at inside
      cases inside
    | some p =>
      rw [port, Option.map_some, Option.getD_some, String.toList_append] at inside
      obtain colon | digit := List.mem_append.mp inside
      · rw [List.mem_singleton.mp colon]
        decide
      · have isDigit := (u.portNumber p port).1 c digit
        intro listed
        simp only [List.mem_cons, List.not_mem_nil, or_false] at listed
        rcases listed with rfl | rfl | rfl | rfl <;> exact absurd isDigit (by decide)

theorem front_free {c : Char} (member : c ∈ u.front.toList) : c ∉ ['/', '?', '#'] := by
  unfold front at member
  cases userinfo : u.userinfo with
  | none =>
    rw [userinfo] at member
    cases member
  | some info =>
    rw [userinfo, Option.map_some, Option.getD_some, String.toList_append] at member
    obtain inside | last := List.mem_append.mp member
    · exact u.userinfoPlain info userinfo c inside
    · rw [List.mem_singleton.mp last]
      decide

theorem takeWhile_text :
    (u.front ++ u.authority ++ u.rest).toList.takeWhile
      (fun c => !(c = '/' || c = '?' || c = '#')) = (u.front ++ u.authority).toList := by
  have runs : ∀ c ∈ (u.front ++ u.authority).toList,
      (!(c = '/' || c = '?' || c = '#')) = true := by
    intro c member
    rw [String.toList_append] at member
    have free : c ∉ ['/', '?', '#'] := by
      obtain inside | inside := List.mem_append.mp member
      · exact u.front_free inside
      · have apart := u.authority_free inside
        simp only [List.mem_cons, List.not_mem_nil, or_false, not_or] at apart ⊢
        exact ⟨apart.1, apart.2.1, apart.2.2.1⟩
    simpa [and_assoc] using free
  have stops : u.rest.toList.takeWhile (fun c => !(c = '/' || c = '?' || c = '#')) = [] := by
    have begins := u.restBegins
    cases chars : u.rest.toList with
    | nil => rfl
    | cons c later =>
      rw [chars] at begins
      have delimiter : c ∈ ['/', '?', '#'] := begins c rfl
      simp only [List.mem_cons, List.not_mem_nil, or_false] at delimiter
      rcases delimiter with rfl | rfl | rfl <;> rfl
  rw [String.toList_append, List.takeWhile_append_of_pos runs, stops, List.append_nil]

theorem at_free : '@' ∉ u.authority.toList := fun member =>
  u.authority_free member (by decide)

theorem withoutUserinfo_text : withoutUserinfo (u.front ++ u.authority) = u.authority := by
  unfold withoutUserinfo front
  cases u.userinfo with
  | none =>
    have plain : (none.map fun info => info ++ "@").getD "" ++ u.authority = u.authority := by
      simp
    rw [plain, Text.rsplitOnce_of_notMem u.at_free]
    rfl
  | some info =>
    have whole : ((some info).map fun info => info ++ "@").getD "" ++ u.authority =
        String.ofList (info.toList ++ '@' :: u.authority.toList) := by
      refine String.toList_injective ?_
      simp
    rw [whole, Text.rsplitOnce_append _ u.at_free]
    simp

theorem getLastD_split_text :
    (Text.split (u.front ++ u.authority) '@').getLastD (u.front ++ u.authority) =
      u.authority := by
  have last : Text.splitChars '@' u.authority.toList = [u.authority.toList] :=
    Text.splitChars_of_notMem u.at_free
  unfold Text.split front
  cases u.userinfo with
  | none =>
    have plain : (none.map fun info => info ++ "@").getD "" ++ u.authority = u.authority := by
      simp
    rw [plain, last]
    simp
  | some info =>
    have whole : (((some info).map fun info => info ++ "@").getD "" ++ u.authority).toList =
        info.toList ++ '@' :: u.authority.toList := by simp
    rw [whole, Text.splitChars_append_cons, last]
    simp

theorem stripPrefix_name {text : String} (plain : (UrlHost.name text).Plain) (later : String) :
    Text.stripPrefix (text ++ later) "[" = none := by
  rw [Text.stripPrefix_eq_none]
  rintro ⟨rest, whole⟩
  obtain ⟨some, free, _⟩ := plain
  rw [String.toList_append] at whole
  cases chars : text.toList with
  | nil => exact some (String.toList_injective chars)
  | cons c cs =>
    rw [chars] at whole
    have first : '[' = c := (List.cons.inj whole).1
    exact free c (chars ▸ List.mem_cons_self) (first ▸ by decide)

theorem parsePort_port {p : String} (port : u.port = some p) :
    ∃ n, parsePort p = some n ∧ p ≠ "" ∧ ':' ∉ p.toList := by
  obtain ⟨digits, isNumber⟩ := u.portNumber p port
  obtain ⟨n, number⟩ := Option.isSome_iff_exists.mp isNumber
  refine ⟨n, number, ?_, fun colon => absurd (digits ':' colon) (by decide)⟩
  rintro rfl
  have unread : parsePort "" = none := by decide
  rw [unread] at number
  cases number

theorem splitHostPort_authority :
    splitHostPort u.authority = some (u.host.text, u.port.bind parsePort) := by
  have plain := u.hostPlain
  unfold splitHostPort authority
  cases host : u.host with
  | name text =>
    rw [host] at plain
    rw [UrlHost.text, stripPrefix_name plain]
    cases port : u.port with
    | none =>
      have bare : text ++ (none.map fun p => ":" ++ p).getD "" = text := by simp
      rw [bare, Text.rsplitOnce_of_notMem plain.2.2]
      rfl
    | some p =>
      obtain ⟨n, number, filled, free⟩ := u.parsePort_port port
      have whole : text ++ ((some p).map fun p => ":" ++ p).getD "" =
          String.ofList (text.toList ++ ':' :: p.toList) := by
        refine String.toList_injective ?_
        simp
      have single : (!Text.contains text ':') = true := by
        simpa [Text.contains] using plain.2.2
      rw [whole, Text.rsplitOnce_append _ free, String.ofList_toList, String.ofList_toList]
      dsimp only
      rw [if_pos ⟨single, filled⟩, Option.bind_some, number]
      rfl
  | bracketed text =>
    rw [host] at plain
    have closed : ']' ∉ text.toList := fun member =>
      plain.1 ']' member (by decide)
    have opened : ∀ later : String, Text.stripPrefix (("[" ++ text ++ "]") ++ later) "[" =
        some (text ++ "]" ++ later) := by
      intro later
      rw [Text.stripPrefix_eq_some]
      simp [String.append_assoc]
    have cut : ∀ later : String, Text.splitOnce (text ++ "]" ++ later) "]" =
        some (text, later) := Text.splitOnce_append rfl closed
    rw [UrlHost.text, opened]
    dsimp only
    rw [cut, Option.bind_some]
    dsimp only
    cases port : u.port with
    | none => rfl
    | some p =>
      obtain ⟨n, number, _⟩ := u.parsePort_port port
      have colon : Text.stripPrefix (((some p).map fun p => ":" ++ p).getD "") ":" =
          some p := Text.stripPrefix_eq_some.mpr rfl
      rw [colon]
      dsimp only
      rw [Option.bind_some, number]
      rfl

theorem endpointOfUrl_text :
    (endpointOfUrl u.text).map (fun ep => { ep with host := toAsciiLowercase ep.host }) =
      some u.endpoint := by
  unfold endpointOfUrl beforeDelimiter
  rw [u.splitOnce_text, Option.bind_some, u.takeWhile_text, String.ofList_toList,
    u.withoutUserinfo_text, u.splitHostPort_authority]
  rfl

theorem dropPort (front : List Char) {rest : List Char} (free : ':' ∉ rest) :
    ((front ++ ':' :: rest).reverse.dropWhile (· ≠ ':')).tail.reverse = front := by
  have passed : ∀ c ∈ rest.reverse, decide (c ≠ ':') = true := by
    intro c member
    rw [decide_eq_true_eq]
    rintro rfl
    exact free (List.mem_reverse.mp member)
  rw [List.reverse_append, List.reverse_cons, List.append_assoc, List.singleton_append,
    List.dropWhile_append_of_pos passed, List.dropWhile_cons_of_neg (by decide), List.tail_cons,
    List.reverse_reverse]

theorem exists_last_colon {text : String} (member : ':' ∈ text.toList) :
    ∃ front rest, text.toList = front ++ ':' :: rest ∧ ':' ∉ rest ∧
      Text.rsplitOnce text ':' = some (String.ofList front, String.ofList rest) := by
  obtain ⟨rest, front, reversed, free⟩ :=
    List.eq_append_cons_of_mem (List.mem_reverse.mpr member)
  have whole : text.toList = front.reverse ++ ':' :: rest.reverse := by
    rw [← List.reverse_reverse text.toList, reversed]
    simp
  have last : ':' ∉ rest.reverse := fun inside => free (List.mem_reverse.mp inside)
  refine ⟨_, _, whole, last, ?_⟩
  rw [← Text.rsplitOnce_append front.reverse last, ← whole, String.ofList_toList]

theorem dropPort_authority :
    (if u.authority.toList.contains ':' then
      (u.authority.toList.reverse.dropWhile (· ≠ ':')).tail.reverse
    else u.authority.toList) = u.readHost.toList := by
  have plain := u.hostPlain
  have cut : ∀ (front : List Char) {rest : List Char}, ':' ∉ rest →
      u.authority.toList = front ++ ':' :: rest →
      (if u.authority.toList.contains ':' then
        (u.authority.toList.reverse.dropWhile (· ≠ ':')).tail.reverse
      else u.authority.toList) = front := by
    intro front rest free whole
    rw [if_pos (by simp [whole]), whole, dropPort front free]
  cases port : u.port with
  | some p =>
    obtain ⟨n, _, _, free⟩ := u.parsePort_port port
    have whole : u.authority.toList = u.host.text.toList ++ ':' :: p.toList := by
      simp [authority, port]
    rw [cut _ free whole]
    unfold readHost
    rw [port]
    cases u.host <;> rfl
  | none =>
    have whole : u.authority.toList = u.host.text.toList := by
      simp [authority, port]
    cases host : u.host with
    | name text =>
      rw [host] at plain whole
      have none : ¬u.authority.toList.contains ':' = true := by
        rw [whole]
        simpa [UrlHost.text] using plain.2.2
      rw [if_neg none, whole]
      unfold readHost
      rw [host]
    | bracketed text =>
      rw [host] at plain whole
      obtain ⟨front, rest, parts, free, last⟩ := exists_last_colon plain.2
      have split : u.authority.toList = ('[' :: front) ++ ':' :: (rest ++ [']']) := by
        rw [whole]
        simp [UrlHost.text, parts]
      have free' : ':' ∉ rest ++ [']'] := by simpa using free
      rw [cut _ free' split]
      unfold readHost
      rw [host, port]
      simp [last]

theorem hostFromText_text :
    hostFromText (u.front ++ u.authority) = .literal (toAsciiLowercase u.readHost) := by
  have filled : u.authority ≠ "" := by
    intro none
    have plain := u.hostPlain
    unfold authority at none
    cases host : u.host with
    | name text =>
      rw [host] at plain none
      exact plain.1 (String.append_eq_empty_iff.mp none).1
    | bracketed text =>
      rw [host] at none
      have chars := congrArg String.toList none
      simp [UrlHost.text] at chars
  have whole : u.front ++ u.authority ≠ "" := fun none =>
    filled (String.append_eq_empty_iff.mp none).2
  unfold hostFromText toAsciiLowercase
  rw [if_neg whole, u.getLastD_split_text]
  dsimp only
  rw [u.dropPort_authority]

theorem normalize_text (isAlphanumeric : Char → Bool) :
    (normalize isAlphanumeric [.literal u.text]).host =
      .literal (toAsciiLowercase u.readHost) := by
  have absolute : Text.startsWith u.text "/" = false := by
    rw [Bool.eq_false_iff]
    intro slash
    rw [Text.startsWith_iff] at slash
    obtain ⟨rest, whole⟩ := slash
    unfold text at whole
    rw [String.toList_append, String.toList_append, List.append_assoc] at whole
    cases chars : u.scheme.toList with
    | nil => exact u.scheme_ne chars
    | cons c cs =>
      rw [chars] at whole
      have first : '/' = c := (List.cons.inj whole).1
      exact (u.scheme_free (chars ▸ List.mem_cons_self)).2 first.symm
  have chunk : (takeHost [.literal (u.front ++ u.authority ++ u.rest)]).1 =
      [.literal (u.front ++ u.authority)] := by
    unfold takeHost
    dsimp only
    rw [u.takeWhile_text]
    split
    next done =>
        have none : u.rest = "" := by
          have tail : (u.front ++ u.authority ++ u.rest).toList =
              (u.front ++ u.authority).toList ++ u.rest.toList := String.toList_append
          rw [tail, List.drop_left, List.isEmpty_iff] at done
          exact String.toList_injective done
        rw [none, String.append_empty]
        rfl
    · rw [String.ofList_toList]
  unfold normalize extractHost
  dsimp only
  rw [NormalizeUrlPart.hostText, if_neg (by rw [absolute]; exact Bool.false_ne_true), afterScheme,
    u.splitOnce_text]
  dsimp only
  rw [chunk]
  change hostFromText (String.join [u.front ++ u.authority]) = _
  rw [← u.hostFromText_text]
  simp [String.join]

end UrlLiteral

/-! ### The services found -/

theorem mem_foldl_appendNew {α : Type*} [DecidableEq α] {l out : List α} {x : α} :
    x ∈ l.foldl appendNew out ↔ x ∈ out ∨ x ∈ l := by
  induction l generalizing out with
  | nil => simp
  | cons y rest ih =>
    rw [List.foldl_cons, ih, List.mem_cons]
    unfold appendNew
    split
    next inside =>
        constructor
        · rintro (old | later)
          · exact .inl old
          · exact .inr (.inr later)
        · rintro (old | rfl | later)
          · exact .inl old
          · exact .inl inside
          · exact .inr later
    · rw [List.mem_append, List.mem_singleton, or_assoc]

theorem nodup_foldl_appendNew {α : Type*} [DecidableEq α] {l out : List α} (nodup : out.Nodup) :
    (l.foldl appendNew out).Nodup := by
  induction l generalizing out with
  | nil => exact nodup
  | cons y rest ih =>
    refine ih ?_
    unfold appendNew
    split
    · exact nodup
    next outside =>
        rw [List.nodup_append_comm, List.singleton_append, List.nodup_cons]
        exact ⟨outside, nodup⟩

theorem EnvScope.claimants_eq_singleton {scope : EnvScope} {u : UrlLiteral} {name : ServiceName} :
    scope.claimants u.endpoint = [name] ↔ ∀ other, u.Claims scope other ↔ other = name := by
  have member : ∀ other, other ∈ scope.claimants u.endpoint ↔ u.Claims scope other := by
    intro other
    unfold claimants UrlLiteral.Claims
    rw [mem_foldl_appendNew, List.mem_map]
    constructor
    · rintro (none | ⟨claim, inside, rfl⟩)
      · cases none
      · exact ⟨claim.1, List.mem_filter.mp inside⟩
    · rintro ⟨pattern, inside, found⟩
      exact .inr ⟨(pattern, other), List.mem_filter.mpr ⟨inside, found⟩, rfl⟩
  have nodup : (scope.claimants u.endpoint).Nodup := nodup_foldl_appendNew List.nodup_nil
  constructor
  · intro alone other
    rw [← member, alone, List.mem_singleton]
  · intro only
    refine List.perm_singleton.mp ((List.perm_ext_iff_of_nodup nodup (by simp)).mpr fun other => ?_)
    rw [member, only, List.mem_singleton]

private def declares (u : UrlLiteral) (s : ServiceDecl) : Bool :=
  s.hosts.any fun h => hostMatchesPattern h (toAsciiLowercase u.readHost)

private theorem declares_iff {u : UrlLiteral} {s : ServiceDecl} :
    declares u s = true ↔ u.Declares s :=
  List.any_eq_true

private theorem joinerRoute_eq {isAlphanumeric : Char → Bool} {config : ContractFederationConfig}
    {consumer : ConsumerFact} {u : UrlLiteral} :
    joinerRoute isAlphanumeric config consumer u.text =
      (config.services.find? (declares u)).map ServiceDecl.name := by
  unfold joinerRoute targetServiceFromHosts
  dsimp only
  rw [u.normalize_text]
  rfl

private theorem declares_of_joinerRoute {isAlphanumeric : Char → Bool}
    {config : ContractFederationConfig} {consumer : ConsumerFact} {u : UrlLiteral}
    {name : ServiceName}
    (taken : joinerRoute isAlphanumeric config consumer u.text = some name) :
    ∃ s ∈ config.services, u.Declares s ∧ s.name = name := by
  rw [joinerRoute_eq] at taken
  obtain ⟨s, first, same⟩ := Option.map_eq_some_iff.mp taken
  exact ⟨s, List.mem_of_find?_eq_some first, declares_iff.mp (List.find?_some first), same⟩

theorem splitHostPort_of_matches {pattern host : String}
    (free : ∀ c ∈ host.toList, c ≠ ':' ∧ c ≠ '[')
    (found : hostMatchesPattern pattern host = true) : splitHostPort pattern = some (pattern, none) := by
  have chars : ∀ c ∈ pattern.toList, c ≠ ':' ∧ c ≠ '[' := by
    unfold hostMatchesPattern at found
    split at found
    next suffix stripped =>
        obtain rfl := Text.stripPrefix_eq_some.mp stripped
        have inside : ∀ c ∈ suffix.toList, c ∈ host.toList := by
          intro c member
          rw [Bool.or_eq_true, decide_eq_true_eq] at found
          obtain rfl | ends := found
          · exact member
          · unfold Text.endsWith at ends
            rw [List.isSuffixOf_iff_suffix] at ends
            exact ends.subset (by simpa using .inr member)
        intro c member
        rw [String.toList_append] at member
        obtain front | back := List.mem_append.mp member
        · have listed : c = '*' ∨ c = '.' := by simpa using front
          obtain rfl | rfl := listed <;> decide
        · exact free c (inside c back)
    · rw [decide_eq_true_eq] at found
      exact found ▸ free
  have unbracketed : Text.stripPrefix pattern "[" = none := by
    rw [Text.stripPrefix_eq_none]
    rintro ⟨rest, whole⟩
    exact (chars '[' (whole ▸ List.mem_cons_self)).2 rfl
  have uncut : Text.rsplitOnce pattern ':' = none :=
    Text.rsplitOnce_of_notMem fun member => (chars ':' member).1 rfl
  unfold splitHostPort
  rw [unbracketed, uncut]

private theorem eq_of_toLower {c d : Char} (lowered : c.toLower = d) (symbol : d.isLower = false) :
    c = d := by
  rw [← lowered, Char.isLower_toLower_eq_isAlpha, Char.isAlpha, Bool.or_eq_false_iff] at symbol
  rw [← lowered, Char.toLower_eq_of_not_isUpper (by simp [symbol.1])]

theorem UrlLiteral.Declares.claims {u : UrlLiteral} {text : String} (named : u.host = .name text)
    {services : List ServiceDecl} {params : SortedMap String String} {s : ServiceDecl}
    (member : s ∈ services) (declares : u.Declares s) :
    u.Claims (.new services params) s.name := by
  obtain ⟨pattern, listed, found⟩ := declares
  have plain := u.hostPlain
  rw [named] at plain
  have whole : u.readHost = text := by
    unfold readHost
    rw [named]
    rfl
  rw [whole] at found
  have free : ∀ c ∈ (toAsciiLowercase text).toList, c ≠ ':' ∧ c ≠ '[' := by
    intro c inside
    unfold toAsciiLowercase at inside
    rw [String.toList_ofList] at inside
    obtain ⟨d, old, lowered⟩ := List.mem_map.mp inside
    constructor
    · rintro rfl
      exact plain.2.2 (eq_of_toLower lowered rfl ▸ old)
    · rintro rfl
      exact plain.2.1 d old (eq_of_toLower lowered rfl ▸ by decide)
  refine ⟨pattern, List.mem_flatMap.mpr ⟨s, member, List.mem_append_left _
    (List.mem_map_of_mem listed)⟩, ?_⟩
  unfold endpointMatches endpoint
  rw [splitHostPort_of_matches free found, named]
  simpa [UrlHost.text] using found

/-- **When the two resolvers agree.** They agree on a URL, in every order of the services, exactly
when every service that declares the host the normalizer reads claims the endpoint, and some
service declares that host if and only if exactly one service claims the endpoint. For a host
that is a name the first half always holds. -/
theorem resolversAgree_iff (isAlphanumeric : Char → Bool) (config : ContractFederationConfig)
    (params : SortedMap String String) (consumer : ConsumerFact) (u : UrlLiteral) :
    (ResolversAgree isAlphanumeric config params consumer u.text ↔
      (∀ s ∈ config.services, u.Declares s → u.Claims (.new config.services params) s.name) ∧
        ((∃ s ∈ config.services, u.Declares s) ↔
          ∃! name, u.Claims (.new config.services params) name)) ∧
      ∀ text, u.host = .name text →
        ∀ s ∈ config.services, u.Declares s → u.Claims (.new config.services params) s.name := by
  refine ⟨?_, fun text named s member declares => declares.claims named member⟩
  have claims : ∀ services : List ServiceDecl, services.Perm config.services → ∀ name,
      u.Claims (.new services params) name ↔ u.Claims (.new config.services params) name := by
    intro services perm name
    have same : (EnvScope.new services params).claims.Perm
        (EnvScope.new config.services params).claims := perm.flatMap_right _
    unfold UrlLiteral.Claims
    simp only [same.mem_iff]
  have scan : ∀ services : List ServiceDecl, services.Perm config.services → ∀ name,
      scopeRoute (.new services params) u.text = [name] ↔
        ∀ other, u.Claims (.new config.services params) other ↔ other = name := by
    intro services perm name
    obtain ⟨ep, read, lowered⟩ := Option.map_eq_some_iff.mp u.endpointOfUrl_text
    unfold scopeRoute
    rw [read]
    dsimp only
    rw [lowered, EnvScope.claimants_eq_singleton]
    simp only [claims services perm]
  have found : ∀ services : List ServiceDecl, services.Perm config.services →
      ((∃ s ∈ config.services, u.Declares s) ↔
        ∃ name, joinerRoute isAlphanumeric { config with services := services } consumer
          u.text = some name) := by
    intro services perm
    constructor
    · rintro ⟨s, member, declared⟩
      rw [joinerRoute_eq]
      cases first : services.find? (declares u) with
      | none =>
        exact absurd (declares_iff.mpr declared)
          (List.find?_eq_none.mp first s (perm.mem_iff.mpr member))
      | some t => exact ⟨t.name, rfl⟩
    · rintro ⟨name, taken⟩
      obtain ⟨s, member, declared, _⟩ := declares_of_joinerRoute taken
      exact ⟨s, perm.mem_iff.mp member, declared⟩
  constructor
  · intro agree
    have own := fun name => (agree config.services (.refl _) name).trans
      (scan config.services (.refl _) name)
    refine ⟨fun s member declared => ?_, ?_⟩
    · -- in the order that begins with the service the join finds it
      have front := List.perm_cons_erase member
      have takes : joinerRoute isAlphanumeric
          { config with services := s :: config.services.erase s } consumer u.text =
            some s.name := by
        rw [joinerRoute_eq, List.find?_cons_of_pos (declares_iff.mpr declared)]
        rfl
      have alone := (scan _ front.symm s.name).mp ((agree _ front.symm s.name).mp takes)
      exact (alone s.name).mpr rfl
    · rw [found config.services (.refl _)]
      constructor
      · rintro ⟨name, takes⟩
        have alone := (own name).mp takes
        exact ⟨name, (alone name).mpr rfl, fun other claims => (alone other).mp claims⟩
      · rintro ⟨name, claims, only⟩
        exact ⟨name, (own name).mpr fun other =>
          ⟨only other, fun same => same ▸ claims⟩⟩
  · rintro ⟨declared, alone⟩ services perm name
    rw [scan services perm]
    have takes : ∀ name, joinerRoute isAlphanumeric { config with services := services } consumer
        u.text = some name → u.Claims (.new config.services params) name := by
      intro name taken
      obtain ⟨s, member, declares, rfl⟩ := declares_of_joinerRoute taken
      exact declared s (perm.mem_iff.mp member) declares
    constructor
    · intro taken
      obtain ⟨only, claims, unique⟩ := alone.mp ((found services perm).mpr ⟨name, taken⟩)
      obtain rfl := unique name (takes name taken)
      exact fun other => ⟨unique other, fun same => same ▸ claims⟩
    · intro only
      have one : ∃! name, u.Claims (.new config.services params) name :=
        ⟨name, (only name).mpr rfl, fun other claims => (only other).mp claims⟩
      obtain ⟨taken, route⟩ := (found services perm).mp (alone.mpr one)
      rw [route, (only taken).mp (takes taken route)]

def addressedServices : ContractFederationConfig where
  services := [{ name := "local", repo := "a", hosts := ["[::1]"] },
    { name := "user", repo := "b", hosts := ["user:8000"] },
    { name := "svc", repo := "c", hosts := ["*.svc"] },
    { name := "orders", repo := "d", hosts := ["*.orders.svc"] }]

def unhostedCall : ConsumerFact :=
  { method := .unknown, url := ⟨.none, none⟩, via := .library "http", urlExpr := "",
    readsComplete := true }

/-- **The two resolvers do not always agree**: only the scan finds the service at an IPv6 address
without a port and the one at a declared port, and of overlapping wildcards the join takes the
first one. -/
theorem addressedServices_disagree :
    addressedServices.validate Char.isAlphanum ["a", "b", "c", "d"] = .ok () ∧
      ∀ url ∈ ["http://[::1]/health", "http://user:8000/customers", "https://api.orders.svc/v1"],
        ¬ResolversAgree Char.isAlphanum addressedServices ∅ unhostedCall url := by
  refine ⟨by decide +kernel, ?_⟩
  intro url member agree
  simp only [List.mem_cons, List.not_mem_nil, or_false] at member
  obtain rfl | rfl | rfl := member
  · have found := (agree _ (.refl _) "local").mpr (by decide +kernel)
    exact absurd found (by decide +kernel)
  · have found := (agree _ (.refl _) "user").mpr (by decide +kernel)
    exact absurd found (by decide +kernel)
  · have found := (agree _ (.refl _) "svc").mp (by decide +kernel)
    exact absurd found (by decide +kernel)

end Lain.Contracts
