import DuckdbLoki.LabelColumns
import DuckdbLoki.QueryText
import DuckdbLoki.Reading.Framing

namespace DuckdbLoki

section Client

def findText (mark : Str) : Str → Option ℕ
  | [] => none
  | c :: s => if mark <+: c :: s then some 0 else (findText mark s).map (· + 1)

def isAuthorityEnd (c : Char) : Bool := c = '/' || c = '?' || c = '#'

def portProblem (port : Str) : Str :=
  if port = [] then "has a ':' but no port number".toList
  else if port.all Char.isDigit then []
  else "has a non-numeric port '".toList ++ port ++ "'".toList

def authorityProblem (authority : Str) : Str :=
  if authority = [] then "is missing a host".toList
  else
    match rfind ':' authority with
    | none => []
    | some colon =>
      if ∃ bracket ∈ rfind ']' authority, colon < bracket then []
      else portProblem (authority.drop (colon + 1))

/-- What is wrong with an endpoint; empty if it is usable. -/
def endpointProblem (endpoint : Str) : Str :=
  match findText "://".toList endpoint with
  | none => "is missing a scheme \u00e2\u0080\u0094 expected http:// or https://".toList
  | some schemeEnd =>
    authorityProblem ((endpoint.drop (schemeEnd + 3)).takeWhile (! isAuthorityEnd ·))

def invalidEndpoint (endpoint : Str) : Str :=
  "invalid endpoint '".toList ++ endpoint ++ "': it ".toList ++ endpointProblem endpoint

structure ClientRequest where
  endpoint : Str
  connectTimeoutS : ℕ
  readTimeoutS : ℕ
  headers : List (Str × Str)
  target : Str
deriving DecidableEq

/-- `HttpGet` up to the construction of the client. -/
def clientRequest (call : HttpCall) : Except HttpResponse ClientRequest :=
  let query := buildQueryString call.request
  if endpointProblem call.endpoint ≠ [] then .error ⟨0, [], invalidEndpoint call.endpoint⟩
  else
    .ok {
      endpoint := call.endpoint
      connectTimeoutS := call.connectTimeoutS
      readTimeoutS := call.readTimeoutS
      headers := call.headers
      target := if query = [] then call.request.path else call.request.path ++ '?' :: query }

/-- `client` answers with the text of an error, or a status and a body. -/
def httpGet (client : ClientRequest → Except Str (ℤ × Str)) (call : HttpCall) : HttpResponse :=
  match clientRequest call with
  | .error out => out
  | .ok request =>
    match client request with
    | .error error => ⟨0, [], error⟩
    | .ok (status, body) => ⟨status, body, []⟩

end Client

section Grammar

def isHexDigit (c : Char) : Bool :=
  c.isDigit || ('a' ≤ c && c ≤ 'f') || ('A' ≤ c && c ≤ 'F')

def isHexGroup (s : Str) : Bool := s ≠ [] ∧ s.length ≤ 4 ∧ s.all isHexDigit

def isDecOctet (s : Str) : Bool :=
  (readDigits s).any (· ≤ 255) ∧ (s.length = 1 ∨ s.head? ≠ some '0')

def isIpv4 (s : Str) : Bool := (s.splitOn '.').length = 4 ∧ (s.splitOn '.').all isDecOctet

/-- The 16-bit groups between colons; an IPv4 address at the end makes two. -/
def countGroups : List Str → Option ℕ
  | [] => some 0
  | [group] => if isHexGroup group then some 1 else if isIpv4 group then some 2 else none
  | group :: groups => if isHexGroup group then (countGroups groups).map (· + 1) else none

def groupsOf (s : Str) : List Str := if s = [] then [] else s.splitOn ':'

def isIpv6Literal (s : Str) : Bool :=
  match findText "::".toList s with
  | none => countGroups (groupsOf s) = some 8
  | some i =>
    (groupsOf (s.take i)).all isHexGroup ∧
      (countGroups (groupsOf (s.drop (i + 2)))).any (· + (groupsOf (s.take i)).length ≤ 7)

example : isIpv6Literal "2001:db8::ff00:42:8329".toList = true ∧
    isIpv6Literal "::ffff:192.0.2.1".toList = true ∧ isIpv6Literal "1::2::3".toList = false := by
  decide

def IsHost (host : Str) : Prop :=
  (host ≠ [] ∧ ∀ c ∈ host, c ≠ ':' ∧ c ≠ '[' ∧ c ≠ ']') ∨
    ∃ literal, host = '[' :: literal ++ [']'] ∧ isIpv6Literal literal = true

def withPort (host : Str) (port : Option Str) : Str := host ++ port.elim [] (':' :: ·)

/-- The last colon that no bracket follows starts the port, made of digits. -/
structure PortCut (host : Str) (port : Option Str) : Prop where
  bracket : port = none → ∀ a b, host = a ++ ':' :: b → ']' ∈ b
  digits : ∀ p ∈ port, p ≠ [] ∧ p.all Char.isDigit = true

/-- `scheme://host`, perhaps a port, and what follows the authority. -/
structure EndpointParts where
  scheme : Str
  host : Str
  port : Option Str
  target : Str

namespace EndpointParts

variable (e : EndpointParts)

def authority : Str := withPort e.host e.port

def text : Str := e.scheme ++ "://".toList ++ e.authority ++ e.target

structure Cut : Prop where
  scheme : ¬ "://".toList <:+: e.scheme ++ ":/".toList
  authority_ne : e.authority ≠ []
  authority : ∀ c ∈ e.authority, isAuthorityEnd c = false
  target : ∀ c ∈ e.target.head?, isAuthorityEnd c = true
  port : PortCut e.host e.port

structure Usable : Prop where
  scheme : e.scheme = "http".toList ∨ e.scheme = "https".toList
  host : IsHost e.host
  port : ∀ port ∈ e.port, ∃ n ∈ readDigits port, n ≤ 65535

end EndpointParts

def UsableEndpoint (s : Str) : Prop :=
  ∃ e : EndpointParts, s = e.text ∧ e.Usable ∧ (∀ c ∈ e.authority, isAuthorityEnd c = false) ∧
    ∀ c ∈ e.target.head?, isAuthorityEnd c = true

end Grammar

section Search

variable {mark s : Str} {c : Char} {i : ℕ}

theorem prefix_before (a b : Str) : a ++ mark.dropLast <+: a ++ mark ++ b := by
  rw [List.append_assoc, List.prefix_append_right_inj]
  exact (List.dropLast_prefix mark).trans (List.prefix_append mark b)

theorem not_prefix_of_first {a b : Str} (hfirst : ¬ mark <:+: c :: a ++ mark.dropLast) :
    ¬ mark <+: c :: a ++ mark ++ b := by
  intro hprefix
  have hlong : mark.length ≤ (c :: a ++ mark.dropLast).length := by
    rw [List.length_append, List.length_dropLast, List.length_cons]
    omega
  exact hfirst (List.prefix_of_prefix_length_le hprefix (prefix_before _ b) hlong).isInfix

theorem findText_eq_some (hmark : mark ≠ []) : findText mark s = some i ↔
    ∃ a b, s = a ++ mark ++ b ∧ a.length = i ∧ ¬ mark <:+: a ++ mark.dropLast := by
  induction s generalizing i with
  | nil =>
    apply iff_of_false
    · exact nofun
    · intro ⟨a, b, h, _⟩
      exact hmark (List.append_eq_nil_iff.mp (List.append_eq_nil_iff.mp h.symm).1).2
  | cons c s ih =>
    unfold findText
    split_ifs with hprefix
    · constructor
      · intro h
        obtain ⟨b, hb⟩ := hprefix
        refine ⟨[], b, hb.symm, Option.some.inj h, ?_⟩
        intro hinfix
        have hshort := hinfix.length_le
        rw [List.nil_append, List.length_dropLast] at hshort
        have hpos := List.length_pos_iff.mpr hmark
        omega
      · intro ⟨a, b, h, hlen, hfirst⟩
        cases a with
        | nil => exact congrArg some hlen
        | cons d a => exact absurd (h ▸ hprefix) (not_prefix_of_first hfirst)
    · rw [Option.map_eq_some_iff]
      constructor
      · intro ⟨j, hj, hi⟩
        obtain ⟨a, b, h, hlen, hfirst⟩ := ih.mp hj
        refine ⟨c :: a, b, congrArg (c :: ·) h, ?_, ?_⟩
        · rw [List.length_cons, hlen, hi]
        · rw [List.cons_append, List.infix_cons_iff, not_or]
          refine ⟨?_, hfirst⟩
          intro hfront
          apply hprefix
          rw [h]
          exact hfront.trans (prefix_before (c :: a) b)
      · intro ⟨a, b, h, hlen, hfirst⟩
        cases a with
        | nil => exact absurd ⟨b, h.symm⟩ hprefix
        | cons d a =>
          obtain ⟨_, htail⟩ := List.cons.inj h
          rw [List.cons_append, List.infix_cons_iff, not_or] at hfirst
          exact ⟨a.length, ih.mpr ⟨a, b, htail, rfl, hfirst.2⟩, hlen⟩

theorem rfind_eq_none (h : c ∉ s) : rfind c s = none := by
  have hreverse : s.reverse.idxOf? c = none :=
    List.idxOf?_eq_none_iff.mpr (mt List.mem_reverse.mp h)
  rw [rfind, hreverse]
  rfl

end Search

section Check

theorem portProblem_eq_nil {port : Str} :
    portProblem port = [] ↔ port ≠ [] ∧ port.all Char.isDigit = true := by
  unfold portProblem
  split_ifs with hempty hdigits
  · exact iff_of_false (by decide) (fun h ↦ h.1 hempty)
  · exact iff_of_true rfl ⟨hempty, hdigits⟩
  · apply iff_of_false
    · simp
    · exact fun h ↦ hdigits h.2

theorem notMem_digits {p : Str} (h : p.all Char.isDigit = true) {c : Char}
    (hc : c.isDigit = false) : c ∉ p := by
  intro hmem
  exact ne_of_isDigit (List.all_eq_true.mp h c hmem) hc rfl

theorem bracket_after {x y : Str} :
    (∃ bracket ∈ rfind ']' (x ++ ':' :: y), x.length < bracket) ↔ ']' ∈ y := by
  by_cases hy : ']' ∈ y
  · apply iff_of_true _ hy
    obtain ⟨u, v, hsplit, hv⟩ := Framing.exists_last hy
    have hrfind := rfind_append_cons hv (x ++ ':' :: u)
    rw [List.append_assoc, List.cons_append, ← hsplit] at hrfind
    refine ⟨_, hrfind, ?_⟩
    rw [List.length_append, List.length_cons]
    omega
  · apply iff_of_false _ hy
    intro ⟨bracket, hmem, hlt⟩
    have hcolon : ']' ∉ ':' :: y := List.not_mem_cons_of_ne_of_not_mem (by decide) hy
    by_cases hx : ']' ∈ x
    · obtain ⟨u, v, hsplit, hv⟩ := Framing.exists_last hx
      have hrest : ']' ∉ v ++ ':' :: y := List.not_mem_append hv hcolon
      have hrfind := rfind_append_cons hrest u
      rw [hsplit, List.append_assoc, List.cons_append, hrfind] at hmem
      rw [hsplit, List.length_append, ← Option.some.inj hmem] at hlt
      omega
    · rw [rfind_eq_none (List.not_mem_append hx hcolon)] at hmem
      cases hmem

theorem exists_portCut_iff {x y : Str} (hy : ':' ∉ y) :
    (∃ host port, x ++ ':' :: y = withPort host port ∧ PortCut host port) ↔
      ']' ∈ y ∨ (y ≠ [] ∧ y.all Char.isDigit = true) := by
  constructor
  · intro ⟨host, port, h, hcut⟩
    cases port with
    | none =>
      have hhost : host ++ [] = x ++ ':' :: y := h.symm
      rw [List.append_nil] at hhost
      exact Or.inl (hcut.bracket rfl x y hhost)
    | some p =>
      have hp := hcut.digits p rfl
      obtain ⟨_, hpy⟩ := Framing.cut_right hy (notMem_digits hp.2 rfl) h
      exact Or.inr (hpy ▸ hp)
  · intro h
    rcases h with hbracket | hdigits
    · refine ⟨x ++ ':' :: y, none, (List.append_nil _).symm, ?_, nofun⟩
      -- whatever colon is taken, the bracket behind the last one follows it
      intro _ a b hcolon
      exact (Framing.suffix_of_last hy hcolon).mem hbracket
    · refine ⟨x, some y, rfl, nofun, ?_⟩
      intro p hp
      exact Option.some.inj hp ▸ hdigits

theorem authorityProblem_eq_nil {authority : Str} : authorityProblem authority = [] ↔
    authority ≠ [] ∧ ∃ host port, authority = withPort host port ∧ PortCut host port := by
  unfold authorityProblem
  split_ifs with hempty
  · exact iff_of_false (by decide) (fun h ↦ h.1 hempty)
  rw [and_iff_right hempty]
  by_cases hcolon : ':' ∈ authority
  · obtain ⟨x, y, hsplit, hy⟩ := Framing.exists_last hcolon
    have hdrop : (x ++ ':' :: y).drop (x.length + 1) = y := by simp
    rw [hsplit, rfind_append_cons hy, exists_portCut_iff hy]
    dsimp only
    rw [hdrop]
    split_ifs with hbracket
    · exact iff_of_true rfl (Or.inl (bracket_after.mp hbracket))
    · rw [portProblem_eq_nil, or_iff_right (mt bracket_after.mpr hbracket)]
  · rw [rfind_eq_none hcolon]
    refine iff_of_true rfl ⟨authority, none, (List.append_nil _).symm, ?_, nofun⟩
    intro _ a b h
    exact absurd (h ▸ List.mem_append_right a List.mem_cons_self) hcolon

theorem PortCut.none_ne {host host' p : Str} (h : PortCut host none)
    (h' : PortCut host' (some p)) : withPort host none ≠ withPort host' (some p) := by
  intro heq
  have hhost : host ++ [] = host' ++ ':' :: p := heq
  rw [List.append_nil] at hhost
  exact notMem_digits (h'.digits p rfl).2 rfl (h.bracket rfl host' p hhost)

theorem PortCut.unique {host host' : Str} {port port' : Option Str} (h : PortCut host port)
    (h' : PortCut host' port') (heq : withPort host port = withPort host' port') :
    host = host' ∧ port = port' := by
  cases port with
  | none =>
    cases port' with
    | none => exact ⟨List.append_cancel_right heq, rfl⟩
    | some p' => exact absurd heq (h.none_ne h')
  | some p =>
    cases port' with
    | none => exact absurd heq.symm (h'.none_ne h)
    | some p' =>
      have hcolon : ':'.isDigit = false := rfl
      obtain ⟨hhost, hp⟩ := Framing.cut_right (notMem_digits (h.digits p rfl).2 hcolon)
        (notMem_digits (h'.digits p' rfl).2 hcolon) heq
      exact ⟨hhost, congrArg some hp⟩

end Check

namespace EndpointParts

variable {e e' : EndpointParts}

theorem takeWhile_authority {a t : Str} (ha : ∀ c ∈ a, isAuthorityEnd c = false)
    (ht : ∀ c ∈ t.head?, isAuthorityEnd c = true) :
    (a ++ t).takeWhile (! isAuthorityEnd ·) = a := by
  have hpos : ∀ c ∈ a, (! isAuthorityEnd c) = true := by
    intro c hc
    rw [ha c hc]
    rfl
  apply Framing.takeWhile_append hpos
  intro c hc
  rw [ht c hc]
  rfl

theorem text_eq (e : EndpointParts) :
    e.text = e.scheme ++ "://".toList ++ (e.authority ++ e.target) := by
  unfold text
  rw [List.append_assoc]

theorem drop_text (e : EndpointParts) :
    e.text.drop (e.scheme.length + 3) = e.authority ++ e.target := by
  rw [text_eq]
  exact List.drop_left' (List.length_append)

theorem Cut.findText (h : e.Cut) :
    findText "://".toList e.text = some e.scheme.length := by
  apply (findText_eq_some (by decide)).mpr
  exact ⟨e.scheme, e.authority ++ e.target, e.text_eq, rfl, h.scheme⟩

theorem Cut.endpointProblem (h : e.Cut) : endpointProblem e.text = [] := by
  unfold DuckdbLoki.endpointProblem
  rw [h.findText]
  dsimp only
  rw [drop_text, takeWhile_authority h.authority h.target, authorityProblem_eq_nil]
  exact ⟨h.authority_ne, e.host, e.port, rfl, h.port⟩

theorem exists_cut {s : Str} (h : DuckdbLoki.endpointProblem s = []) :
    ∃ e : EndpointParts, s = e.text ∧ e.Cut := by
  unfold DuckdbLoki.endpointProblem at h
  cases hscheme : DuckdbLoki.findText "://".toList s with
  | none =>
    rw [hscheme] at h
    cases h
  | some schemeEnd =>
    rw [hscheme] at h
    dsimp only at h
    obtain ⟨scheme, rest, hs, hlen, hfirst⟩ := (findText_eq_some (by decide)).mp hscheme
    have hrest : s.drop (schemeEnd + 3) = rest := by
      rw [hs]
      apply List.drop_left'
      rw [List.length_append, hlen]
      rfl
    rw [hrest] at h
    obtain ⟨hne, host, port, hauthority, hport⟩ := authorityProblem_eq_nil.mp h
    refine ⟨⟨scheme, host, port, rest.dropWhile (! isAuthorityEnd ·)⟩, ?_, hfirst, ?_, ?_, ?_,
      hport⟩
    · rw [text_eq, authority, ← hauthority, List.takeWhile_append_dropWhile]
      exact hs
    · rw [authority, ← hauthority]
      exact hne
    · intro c hc
      rw [authority, ← hauthority] at hc
      simpa using List.mem_takeWhile_imp hc
    · intro c hc
      have hend := List.head?_dropWhile_not (! isAuthorityEnd ·) rest
      rw [hc] at hend
      simpa using hend

theorem Cut.unique (h : e.Cut) (h' : e'.Cut) (heq : e.text = e'.text) : e = e' := by
  have hlen := h.findText
  rw [heq, h'.findText, Option.some_inj] at hlen
  have hrest := e.drop_text
  rw [heq, ← hlen, e'.drop_text] at hrest
  have hauthority : e'.authority = e.authority := by
    rw [← takeWhile_authority h'.authority h'.target, hrest,
      takeWhile_authority h.authority h.target]
  have hscheme : e.scheme = e'.scheme := by
    rw [text_eq, text_eq, hrest] at heq
    exact List.append_cancel_right (List.append_cancel_right heq)
  have htarget : e.target = e'.target := by
    rw [hauthority] at hrest
    exact (List.append_cancel_left hrest).symm
  have hports := h.port.unique h'.port hauthority.symm
  obtain ⟨scheme, host, port, target⟩ := e
  obtain ⟨scheme', host', port', target'⟩ := e'
  obtain ⟨hhost, hport⟩ := hports
  dsimp only at hscheme hhost hport htarget
  rw [hscheme, hhost, hport, htarget]

theorem host_ne_nil {host : Str} (h : IsHost host) : host ≠ [] := by
  rcases h with h | ⟨literal, h, _⟩
  · exact h.1
  · rw [h]
    exact List.cons_ne_nil _ _

theorem mem_of_append_singleton {c d : Char} {a b x : Str} (hne : d ≠ c)
    (h : x ++ [c] = a ++ d :: b) : c ∈ b := by
  rcases List.eq_nil_or_concat b with hb | ⟨b', last, hb⟩
  · rw [hb] at h
    have hlast := (List.append_inj' h rfl).2
    exact absurd (List.cons.inj hlast).1.symm hne
  · rw [List.concat_eq_append] at hb
    rw [hb, ← List.cons_append, ← List.append_assoc] at h
    have hlast := (List.append_inj' h rfl).2
    rw [hb, (List.cons.inj hlast).1]
    exact List.mem_append_right _ List.mem_cons_self

theorem Usable.portCut (h : e.Usable) : PortCut e.host e.port := by
  constructor
  · intro _ a b hcolon
    rcases h.host with hname | ⟨literal, hliteral, _⟩
    · have hmem : ':' ∈ e.host := hcolon ▸ List.mem_append_right a List.mem_cons_self
      exact absurd rfl (hname.2 ':' hmem).1
    · -- the closing bracket is the last character, so it comes after every colon
      exact mem_of_append_singleton (by decide) (hliteral.symm.trans hcolon)
  · intro p hp
    obtain ⟨n, hn, _⟩ := h.port p hp
    obtain ⟨hne, hdigits, _⟩ := readDigits_eq_some.mp hn
    exact ⟨hne, List.all_eq_true.mpr hdigits⟩

theorem Usable.cut (h : e.Usable) (hauthority : ∀ c ∈ e.authority, isAuthorityEnd c = false)
    (htarget : ∀ c ∈ e.target.head?, isAuthorityEnd c = true) : e.Cut where
  scheme := by
    rcases h.scheme with hscheme | hscheme
    · rw [hscheme]
      decide
    · rw [hscheme]
      decide
  authority_ne hempty := host_ne_nil h.host (List.append_eq_nil_iff.mp hempty).1
  authority := hauthority
  target := htarget
  port := h.portCut

theorem Cut.of_port {scheme host port : Str}
    (hscheme : ¬ "://".toList <:+: scheme ++ ":/".toList)
    (hauthority : (host ++ ':' :: port).any isAuthorityEnd = false) (hport : port ≠ [])
    (hdigits : port.all Char.isDigit = true) :
    (EndpointParts.mk scheme host (some port) []).Cut := by
  refine ⟨hscheme, ?_, ?_, nofun, nofun, ?_⟩
  · intro hempty
    exact List.cons_ne_nil _ _ (List.append_eq_nil_iff.mp hempty).2
  · intro c hc
    exact Bool.eq_false_of_not_eq_true (List.any_eq_false.mp hauthority c hc)
  · intro p hp
    exact Option.some.inj hp ▸ ⟨hport, hdigits⟩

theorem Cut.not_usable (h : e.Cut) (hbad : ¬ e.Usable) : ¬ UsableEndpoint e.text := by
  intro ⟨e', heq, husable, hauthority, htarget⟩
  exact hbad (h.unique (husable.cut hauthority htarget) heq ▸ husable)

end EndpointParts

section Validation

structure EndpointChecked (s : Str) : Prop where
  accepts : endpointProblem s = [] ↔ UsableEndpoint s
  constructs : UsableEndpoint s → ∀ call : HttpCall, call.endpoint = s →
    ∃ request, clientRequest call = .ok request ∧ request.endpoint = s
  reports : ¬ UsableEndpoint s → ∀ call : HttpCall, call.endpoint = s →
    ∃ message, message ≠ [] ∧ clientRequest call = .error ⟨0, [], message⟩ ∧
      ∀ client, httpGet client call = ⟨0, [], message⟩

theorem EndpointParts.Cut.not_checked {e : EndpointParts} (h : e.Cut) (hbad : ¬ e.Usable) :
    ¬ EndpointChecked e.text := by
  intro hchecked
  exact h.not_usable hbad (hchecked.accepts.mp h.endpointProblem)

theorem invalidEndpoint_ne_nil (endpoint : Str) : invalidEndpoint endpoint ≠ [] := by
  unfold invalidEndpoint
  rw [List.append_assoc, List.append_assoc]
  intro h
  exact absurd (List.append_eq_nil_iff.mp h).1 (by decide)

theorem clientRequest_of_problem {call : HttpCall} (h : endpointProblem call.endpoint ≠ []) :
    clientRequest call = .error ⟨0, [], invalidEndpoint call.endpoint⟩ := by
  unfold clientRequest
  dsimp only
  rw [if_pos h]

theorem httpGet_of_problem {call : HttpCall} (h : endpointProblem call.endpoint ≠ [])
    (client : ClientRequest → Except Str (ℤ × Str)) :
    httpGet client call = ⟨0, [], invalidEndpoint call.endpoint⟩ := by
  unfold httpGet
  rw [clientRequest_of_problem h]

theorem endpointChecked_of_accepts {s : Str} (h : endpointProblem s = [] ↔ UsableEndpoint s) :
    EndpointChecked s where
  accepts := h
  constructs husable call hcall := by
    have hok : ¬ endpointProblem call.endpoint ≠ [] := by
      rw [hcall, not_not]
      exact h.mpr husable
    unfold clientRequest
    dsimp only
    rw [if_neg hok]
    exact ⟨_, rfl, hcall⟩
  reports hbad call hcall := by
    have hproblem : endpointProblem call.endpoint ≠ [] := by
      rw [hcall]
      exact mt h.mp hbad
    exact ⟨_, invalidEndpoint_ne_nil _, clientRequest_of_problem hproblem,
      httpGet_of_problem hproblem⟩

/-- What the check lets through is what can be used, where an endpoint of the
shape it looks for has an `http` scheme, a host and a port in range. -/
theorem endpointChecked_iff (s : Str) :
    EndpointChecked s ↔ ∀ e : EndpointParts, s = e.text → e.Cut → e.Usable := by
  constructor
  · intro h e hs hcut
    rw [hs] at h
    by_contra hbad
    exact hcut.not_checked hbad h
  · intro h
    apply endpointChecked_of_accepts
    constructor
    · intro hproblem
      obtain ⟨e, hs, hcut⟩ := EndpointParts.exists_cut hproblem
      exact ⟨e, hs, h e hs hcut, hcut.authority, hcut.target⟩
    · intro ⟨e, hs, husable, hauthority, htarget⟩
      rw [hs]
      exact (husable.cut hauthority htarget).endpointProblem

/-- A port out of range, another scheme and a missing host are let through. -/
theorem endpointChecked_lets_through :
    ¬ EndpointChecked "http://localhost:99999".toList ∧
      ¬ EndpointChecked "ftp://localhost:21".toList ∧ ¬ EndpointChecked "http://:80".toList := by
  refine ⟨?_, ?_, ?_⟩
  · have hcut : EndpointParts.Cut ⟨"http".toList, "localhost".toList, some "99999".toList, []⟩ :=
      .of_port (by decide) (by decide) (by decide) (by decide)
    apply hcut.not_checked
    intro husable
    obtain ⟨n, hn, hle⟩ := husable.port _ rfl
    have hport : readDigits "99999".toList = some 99999 := by decide
    rw [hport] at hn
    exact absurd (Option.some.inj hn ▸ hle) (by decide)
  · have hcut : EndpointParts.Cut ⟨"ftp".toList, "localhost".toList, some "21".toList, []⟩ :=
      .of_port (by decide) (by decide) (by decide) (by decide)
    apply hcut.not_checked
    intro husable
    exact absurd husable.scheme (by decide)
  · have hcut : EndpointParts.Cut ⟨"http".toList, [], some "80".toList, []⟩ :=
      .of_port (by decide) (by decide) (by decide) (by decide)
    apply hcut.not_checked
    intro husable
    exact EndpointParts.host_ne_nil husable.host rfl

end Validation

end DuckdbLoki
