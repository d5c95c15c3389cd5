import CmTrace.Sccm.Correlation

/-!
# When a correlation is causal

A client fact has a causal result exactly when one server fact alone is its
counterpart and nothing speaks against the two.  Results are told apart by their
handles, and facts by what their handles are taken of.
-/

namespace CmTrace
namespace Sccm

open Std Text Collections
open Timeline (textOrder)

/-! ## Facts in order -/

instance : TransCmp factOrder := by
  unfold factOrder
  infer_instance

theorem boolOrder_eq {a b : Bool} (h : boolOrder a b = .eq) : a = b := by
  have hnat : a.toNat = b.toNat := eq_of_cmp compare h
  cases a <;> cases b <;> first | rfl | cases hnat

instance : LawfulEqCmp factOrder where
  compare_self := cmp_self _ _
  eq_of_compare {a b} h := by
    rw [factOrder, compareLex_eq_iff, compareLex_eq_iff, compareLex_eq_iff, compareLex_eq_iff,
      compareLex_eq_iff] at h
    obtain ⟨hkey, htopology, htime, husable, hterminal, hsource⟩ := h
    have hkey := eq_of_cmp textOrder hkey
    have htopology := eq_of_cmp textOrder htopology
    have htime := eq_of_cmp millisOrder htime
    have husable := boolOrder_eq husable
    have hterminal := boolOrder_eq hterminal
    have hsource := eq_of_cmp textOrder hsource
    cases a
    cases b
    cases hkey
    cases htopology
    cases htime
    cases husable
    cases hterminal
    cases hsource
    rfl

/-- Two inputs that differ in the order of the facts and in how often they come. -/
structure SameFacts (input input' : CanonicalInput) : Prop where
  client : ∀ fact, fact ∈ input.clientFacts ↔ fact ∈ input'.clientFacts
  server : ∀ fact, fact ∈ input.serverFacts ↔ fact ∈ input'.serverFacts
  rest : { input with clientFacts := [], serverFacts := [] } =
    { input' with clientFacts := [], serverFacts := [] }

theorem normalize_congr {input input' : CanonicalInput} (h : SameFacts input input') :
    input.normalize = input'.normalize := by
  obtain ⟨hclient, hserver, hrest⟩ := h
  cases input
  cases input'
  simp only [CanonicalInput.mk.injEq, true_and] at hrest
  obtain ⟨rfl, rfl, rfl, rfl, rfl, rfl, rfl, rfl⟩ := hrest
  simp only [CanonicalInput.normalize, sortedDistinct_congr hclient, sortedDistinct_congr hserver]

theorem length_normalize (input : CanonicalInput) :
    input.normalize.clientFacts.length ≤ maxFactsPerSide := List.length_take_le _ _

/-! ## Nothing against a link -/

namespace Gathered

def clear (g : Gathered) : Bool := g.reasons.isEmpty

@[simp] theorem clear_trigger (g : Gathered) (guardId : CorrelationGuard) :
    (g.trigger guardId).clear = g.clear := rfl

@[simp] theorem clear_request (g : Gathered) (side : CorrelationSide) (logicalArtifactId : Text)
    (reasonCode : CorrelationReason) : (g.request side logicalArtifactId reasonCode).clear = g.clear :=
  rfl

@[simp] theorem clear_note (g : Gathered) (reason : CorrelationReason) :
    (g.note reason).clear = false := TreeSet.isEmpty_insert

theorem clear_when_same {step : Gathered → Gathered} (hstep : ∀ g, (step g).clear = g.clear)
    (condition : Bool) (g : Gathered) : (g.when condition step).clear = g.clear := by
  rw [when]
  split_ifs
  · exact hstep g
  · rfl

theorem clear_when_noted {step : Gathered → Gathered} (hstep : ∀ g, (step g).clear = false)
    (condition : Bool) (g : Gathered) : (g.when condition step).clear = (g.clear && !condition) := by
  cases condition with
  | true => exact (hstep g).trans (Bool.and_false _).symm
  | false => exact (Bool.and_true _).symm

@[simp] theorem clear_when_request (condition : Bool) (g : Gathered) (side : CorrelationSide)
    (logicalArtifactId : Text) (reasonCode : CorrelationReason) :
    (g.when condition (·.request side logicalArtifactId reasonCode)).clear = g.clear :=
  @clear_when_same (·.request side logicalArtifactId reasonCode) (fun _ => rfl) condition g

@[simp] theorem clear_when_note (condition : Bool) (g : Gathered) (reason : CorrelationReason) :
    (g.when condition (·.note reason)).clear = (g.clear && !condition) :=
  clear_when_noted (fun g => clear_note g reason) condition g

end Gathered

/-- What must hold of an input for any of its links to be causal. -/
structure Complete (input : CanonicalInput) : Prop where
  clientProfile : input.clientProfile = .validated
  serverProfile : input.serverProfile = .validated
  clientCoverage : input.clientCoverageComplete = true
  serverCoverage : input.serverCoverageComplete = true
  clientRotation : input.clientRotationComplete = true
  serverRotation : input.serverRotationComplete = true
  uncapped : input.inputCapped = false

theorem clear_guardProfile (authority : ProfileAuthority) (g : Gathered) :
    (guardProfile authority g).clear = (g.clear && decide (authority = .validated)) := by
  cases authority <;> simp [guardProfile]

theorem clear_applyGlobalGuards (input : CanonicalInput) :
    (applyGlobalGuards input {}).clear = true ↔ Complete input := by
  have hstart : Gathered.clear {} = true := TreeSet.isEmpty_emptyc
  rw [applyGlobalGuards]
  rw [Gathered.clear_when_noted (fun g => by simp), Gathered.clear_when_noted (fun g => by simp),
    clear_guardProfile, clear_guardProfile, hstart]
  simp only [Bool.true_and, Bool.and_eq_true, decide_eq_true_eq, Bool.not_eq_true', Bool.or_eq_false_iff,
    Bool.not_eq_false']
  constructor
  · rintro ⟨⟨⟨hc, hs⟩, ⟨hcc, hsc⟩, hcap⟩, hcr, hsr⟩
    exact ⟨hc, hs, hcc, hsc, hcr, hsr, hcap⟩
  · rintro ⟨hc, hs, hcc, hsc, hcr, hsr, hcap⟩
    exact ⟨⟨⟨hc, hs⟩, ⟨hcc, hsc⟩, hcap⟩, hcr, hsr⟩

theorem matchCounterpart_cases (input : CanonicalInput) (client : CanonicalFact) (g : Gathered) :
    (∃ server, topologyMatches input client = [server] ∧
      matchCounterpart input client g = (some server, g)) ∨
    ((∀ server, topologyMatches input client ≠ [server]) ∧
      (matchCounterpart input client g).1 = none) := by
  rw [matchCounterpart]
  by_cases hid : (identityMatches input client).isEmpty = true
  · right
    rw [if_pos hid]
    refine ⟨fun server h => ?_, rfl⟩
    rw [topologyMatches, List.isEmpty_iff.mp hid] at h
    cases h
  · rw [if_neg hid]
    cases htop : topologyMatches input client with
    | nil =>
      right
      exact ⟨fun _ h => (by cases h), rfl⟩
    | cons server rest =>
      cases rest with
      | nil =>
        left
        exact ⟨server, rfl, rfl⟩
      | cons other rest =>
        right
        exact ⟨fun _ h => (by cases h), rfl⟩

theorem clear_compareTimes (client server : CanonicalFact) (g : Gathered) :
    (compareTimes client server g).clear = true ↔ g.clear = true ∧ client.orderingUsable = true ∧
      server.orderingUsable = true ∧ millisOrder server.utcMillis client.utcMillis ≠ .lt ∧
        server.terminalFailure = true := by
  rw [compareTimes]
  simp only [Gathered.clear_when_note]
  cases client.orderingUsable <;> cases server.orderingUsable <;> simp
  split_ifs with hbefore <;> simp [hbefore]

theorem verdict_causal (server : Option CanonicalFact) (g : Gathered) :
    (verdict server g).1 = .causalFinding ↔ server.isSome = true ∧ g.clear = true := by
  rw [verdict]
  split_ifs with hexact <;> simp_all [Gathered.clear]

/-- One server fact alone has the key and the topology of the client fact, its time
is not before the client's, both times being of use, and it failed for good. -/
structure CausalLink (input : CanonicalInput) (client server : CanonicalFact) : Prop where
  alone : (input.serverFacts.filter fun fact =>
    fact.exactKey = client.exactKey ∧ fact.topology = client.topology) = [server]
  clientUsable : client.orderingUsable = true
  serverUsable : server.orderingUsable = true
  notBefore : millisOrder server.utcMillis client.utcMillis ≠ .lt
  terminal : server.terminalFailure = true
  complete : Complete input

theorem topologyMatches_eq (input : CanonicalInput) (client : CanonicalFact) :
    topologyMatches input client = input.serverFacts.filter fun fact =>
      fact.exactKey = client.exactKey ∧ fact.topology = client.topology := by
  rw [topologyMatches, identityMatches, List.filter_filter]
  refine List.filter_congr fun fact _ => ?_
  simp [Bool.and_comm]

section

variable (sha256 : Text → Digest)

theorem reduceClientFact_causal (input : CanonicalInput) (client : CanonicalFact) :
    (reduceClientFact sha256 input client).outcome = .causalFinding ↔
      ∃ server, CausalLink input client server := by
  have houtcome : ∀ g matched server, matched = matchCounterpart input client g →
      g = applyGlobalGuards input {} → server = matched.1 →
      (reduceClientFact sha256 input client).outcome = (verdict server
        (server.elim matched.2 fun server => compareTimes client server matched.2)).1 := by
    rintro g matched server rfl rfl rfl
    rw [reduceClientFact]
    cases (matchCounterpart input client (applyGlobalGuards input {})).1 <;> rfl
  rw [houtcome _ _ _ rfl rfl rfl, verdict_causal]
  rcases matchCounterpart_cases input client (applyGlobalGuards input {}) with
    ⟨server, halone, hmatch⟩ | ⟨hnone, hmatch⟩
  · rw [hmatch]
    simp only [Option.isSome_some, Option.elim_some, true_and]
    rw [clear_compareTimes, clear_applyGlobalGuards]
    rw [topologyMatches_eq] at halone
    constructor
    · rintro ⟨hcomplete, hc, hs, hbefore, hterminal⟩
      exact ⟨server, halone, hc, hs, hbefore, hterminal, hcomplete⟩
    · rintro ⟨server', hlink⟩
      cases (halone.symm.trans hlink.alone)
      exact ⟨hlink.complete, hlink.clientUsable, hlink.serverUsable, hlink.notBefore, hlink.terminal⟩
  · rw [hmatch]
    constructor
    · rintro ⟨hsome, -⟩
      cases hsome
    · rintro ⟨server, hlink⟩
      exact absurd ((topologyMatches_eq input client).trans hlink.alone) (hnone server)

end

/-! ## Handles -/

theorem hexDigit_injective : ∀ a b : Fin 16, hexDigit a = hexDigit b → a = b := by decide

theorem hexByte_injective {a b : Fin 256} (hhigh : hexDigit (a.val / 16) = hexDigit (b.val / 16))
    (hlow : hexDigit (a.val % 16) = hexDigit (b.val % 16)) : a = b := by
  have ha := a.isLt
  have hb := b.isLt
  have hdiv := congrArg Fin.val (hexDigit_injective ⟨a.val / 16, by omega⟩ ⟨b.val / 16, by omega⟩ hhigh)
  have hmod := congrArg Fin.val (hexDigit_injective ⟨a.val % 16, by omega⟩ ⟨b.val % 16, by omega⟩ hlow)
  simp only at hdiv hmod
  exact Fin.ext (by omega)

theorem hex_injective : Function.Injective Digest.hex := by
  have hbytes : ∀ xs ys : List (Fin 256),
      (xs.flatMap fun byte => [hexDigit (byte.val / 16), hexDigit (byte.val % 16)]) =
        (ys.flatMap fun byte => [hexDigit (byte.val / 16), hexDigit (byte.val % 16)]) → xs = ys := by
    intro xs
    induction xs with
    | nil =>
      intro ys h
      cases ys with
      | nil => rfl
      | cons y ys => cases h
    | cons x xs ih =>
      intro ys h
      cases ys with
      | nil => cases h
      | cons y ys =>
        simp only [List.flatMap_cons, List.cons_append, List.nil_append, List.cons.injEq] at h
        rw [hexByte_injective h.1 h.2.1, ih ys h.2.2]
  intro a b h
  exact Subtype.ext (hbytes a.toList b.toList h)

theorem length_hex (digest : Digest) : digest.hex.length = 64 := by
  rw [Digest.hex, List.length_flatMap]
  simp

section

variable {sha256 : Text → Digest} {pair : CorrelationPair}

theorem handle_eq (fact : CanonicalFact) (side : CorrelationSide) : fact.handle sha256 side pair =
    "corrfact:sha256:".toList ++ (sha256 (fact.preimage side pair)).hex := rfl

theorem length_handle (fact : CanonicalFact) (side : CorrelationSide) :
    (fact.handle sha256 side pair).length = 80 := by
  have hlabel : "corrfact:sha256:".toList.length = 16 := by decide
  rw [handle_eq, List.length_append, length_hex, hlabel]

theorem preimage_of_handle {texts : Set Text} (hsha : texts.InjOn sha256) {a b : CanonicalFact}
    {side : CorrelationSide} (ha : a.preimage side pair ∈ texts) (hb : b.preimage side pair ∈ texts)
    (h : a.handle sha256 side pair = b.handle sha256 side pair) :
    a.preimage side pair = b.preimage side pair := by
  rw [handle_eq, handle_eq] at h
  have hhex := List.append_cancel_left h
  exact hsha ha hb (hex_injective hhex)

theorem barred_last (a b c d e f g : Text) :
    barred [a, b, c, d, e, f, g] = barred [a, b, c, d, e] ++ ['|'] ++ (f ++ '|' :: g) := by
  simp [barred, join]

theorem resultPreimage_eq (outcome : CorrelationOutcome) (strength : LinkStrength)
    (confidence : CorrelationConfidence) (reasons : List CorrelationReason)
    (handle : Text) (serverHandle : Option Text) :
    ∃ before, resultPreimage pair outcome strength confidence reasons (some handle) serverHandle =
      before ++ (handle ++ ("\")|".toList ++
        debugOption (serverHandle.map fun handle => '"' :: handle ++ ['"']))) := by
  have hmiddle : "\")|".toList = ['"', ')', '|'] := by decide
  rw [resultPreimage, barred_last, Option.map_some, debugOption, hmiddle]
  generalize barred _ = front
  generalize "Some(".toList = opening
  exact ⟨front ++ ['|'] ++ opening ++ ['"'], by simp⟩

theorem getLast?_debugOption (front : Text) (shown : Option Text) :
    (front ++ debugOption shown).getLast? = some (if shown.isSome then ')' else 'e') := by
  cases shown with
  | none =>
    have hend : front ++ debugOption none = (front ++ "Non".toList) ++ ['e'] := by simp [debugOption]
    rw [hend, List.getLast?_concat]
    rfl
  | some shown =>
    have hend : front ++ debugOption (some shown) = (front ++ ("Some(".toList ++ shown)) ++ [')'] := by
      simp [debugOption]
    rw [hend, List.getLast?_concat]
    rfl

theorem resultPreimage_inj {outcome outcome' : CorrelationOutcome} {strength strength' : LinkStrength}
    {confidence confidence' : CorrelationConfidence} {reasons reasons' : List CorrelationReason}
    {client client' : CanonicalFact} {server server' : Option CanonicalFact}
    (h : resultPreimage pair outcome strength confidence reasons
        (some (client.handle sha256 .client pair))
        (server.map fun fact => fact.handle sha256 .server pair) =
      resultPreimage pair outcome' strength' confidence' reasons'
        (some (client'.handle sha256 .client pair))
        (server'.map fun fact => fact.handle sha256 .server pair)) :
    client.handle sha256 .client pair = client'.handle sha256 .client pair := by
  obtain ⟨before, hbefore⟩ := @resultPreimage_eq pair outcome strength confidence reasons
    (client.handle sha256 .client pair) (server.map fun fact => fact.handle sha256 .server pair)
  obtain ⟨before', hbefore'⟩ := @resultPreimage_eq pair outcome' strength' confidence' reasons'
    (client'.handle sha256 .client pair) (server'.map fun fact => fact.handle sha256 .server pair)
  rw [hbefore, hbefore'] at h
  have hlength : ∀ fact : CanonicalFact, (fact.handle sha256 .client pair).length = 80 :=
    fun fact => length_handle fact .client
  -- both end in a bracket or both in a letter
  have hsame : ∀ tail tail' : Text, tail.length = tail'.length →
      before ++ (client.handle sha256 .client pair ++ tail) =
        before' ++ (client'.handle sha256 .client pair ++ tail') →
      client.handle sha256 .client pair = client'.handle sha256 .client pair := by
    intro tail tail' htail heq
    rw [← List.append_assoc, ← List.append_assoc] at heq
    have hfront := (List.append_inj' heq htail).1
    exact (List.append_inj' hfront ((hlength client).trans (hlength client').symm)).2
  have hlast := congrArg List.getLast? h
  rw [← List.append_assoc, ← List.append_assoc, getLast?_debugOption, ← List.append_assoc,
    ← List.append_assoc, getLast?_debugOption] at hlast
  cases server with
  | none =>
    cases server' with
    | none => exact hsame _ _ rfl h
    | some fact' => exact absurd hlast (by simp)
  | some fact =>
    cases server' with
    | none => exact absurd hlast (by simp)
    | some fact' =>
      refine hsame _ _ ?_ h
      simp [debugOption, length_handle]

end

/-! ## The results of a correlation -/

def resultText (pair : CorrelationPair) (result : CorrelationResult) : Text :=
  resultPreimage pair result.outcome result.linkStrength result.confidence result.reasonCodes
    result.clientFactHandle result.serverFactHandle

section

variable (sha256 : Text → Digest) (input : CanonicalInput)

/-- The digest tells apart what it is taken of for the client facts of an input. -/
structure Distinguishes : Prop where
  handles : Set.InjOn sha256 {text | ∃ client ∈ input.clientFacts,
    text = client.preimage .client input.pair}
  results : Set.InjOn sha256 {text | ∃ client ∈ input.clientFacts,
    text = resultText input.pair (reduceClientFact sha256 input client)}

def Own (client : CanonicalFact) : Prop :=
  ∀ other ∈ input.clientFacts,
    other.preimage .client input.pair = client.preimage .client input.pair → other = client

/-- What a correlation owes to its client facts. -/
structure Correlated : Prop where
  /-- One result stands for an input that lacks a side. -/
  missing : input.clientFacts = [] ∨ input.serverFacts = [] → ∃ result,
    (correlate sha256 input).results = [result] ∧ result.outcome = .counterpartRequested ∧
      result.clientFactHandle = none
  /-- Else each result is a client fact's. -/
  ofFacts : input.clientFacts ≠ [] → input.serverFacts ≠ [] →
    ∀ result ∈ (correlate sha256 input).results, ∃ client ∈ input.clientFacts,
      result.clientFactHandle = some (client.handle sha256 .client input.pair)
  /-- And each client fact of its own handle has one. -/
  one : input.serverFacts ≠ [] → ∀ client ∈ input.clientFacts, Own input client →
    ∃! result, result ∈ (correlate sha256 input).results ∧
      result.clientFactHandle = some (client.handle sha256 .client input.pair)
  causal : ∀ client ∈ input.clientFacts, Own input client →
    ((∃ result ∈ (correlate sha256 input).results,
      result.clientFactHandle = some (client.handle sha256 .client input.pair) ∧
        result.outcome = .causalFinding) ↔ ∃ server, CausalLink input client server)
  distinct : ∀ client ∈ input.clientFacts, ∀ client' ∈ input.clientFacts,
    client.preimage .client input.pair ≠ client'.preimage .client input.pair →
      ∀ result ∈ (correlate sha256 input).results, ∀ result' ∈ (correlate sha256 input).results,
        result.clientFactHandle = some (client.handle sha256 .client input.pair) →
          result'.clientFactHandle = some (client'.handle sha256 .client input.pair) →
            result.resultId ≠ result'.resultId

theorem resultId_eq (client : CanonicalFact) : (reduceClientFact sha256 input client).resultId =
    "corr:sha256:".toList ++
      (sha256 (resultText input.pair (reduceClientFact sha256 input client))).hex := rfl

theorem clientFactHandle_eq (client : CanonicalFact) :
    (reduceClientFact sha256 input client).clientFactHandle =
      some (client.handle sha256 .client input.pair) := rfl

variable {sha256 input}

theorem preimage_of_eq_handle (hsha : Distinguishes sha256 input) {client client' : CanonicalFact}
    (hc : client ∈ input.clientFacts) (hc' : client' ∈ input.clientFacts)
    (h : client.handle sha256 .client input.pair = client'.handle sha256 .client input.pair) :
    client.preimage .client input.pair = client'.preimage .client input.pair :=
  preimage_of_handle hsha.handles ⟨client, hc, rfl⟩ ⟨client', hc', rfl⟩ h

theorem preimage_of_eq_resultId (hsha : Distinguishes sha256 input) {client client' : CanonicalFact}
    (hc : client ∈ input.clientFacts) (hc' : client' ∈ input.clientFacts)
    (h : (reduceClientFact sha256 input client).resultId =
      (reduceClientFact sha256 input client').resultId) :
    client.preimage .client input.pair = client'.preimage .client input.pair := by
  rw [resultId_eq, resultId_eq] at h
  have hhex := List.append_cancel_left h
  have htext := hsha.results ⟨client, hc, rfl⟩ ⟨client', hc', rfl⟩ (hex_injective hhex)
  exact preimage_of_eq_handle hsha hc hc' (resultPreimage_inj htext)

section

variable (hc : input.clientFacts ≠ []) (hs : input.serverFacts ≠ [])
variable (hlen : input.clientFacts.length ≤ maxFactsPerSide)

include hc hs hlen

theorem mem_results {result : CorrelationResult} :
    result ∈ (correlate sha256 input).results ↔
      (input.clientFacts.map (reduceClientFact sha256 input)).find?
        (fun other => other.resultId = result.resultId) = some result := by
  have hcap : input.clientFacts.take maxResults = input.clientFacts :=
    List.take_of_length_le (Nat.le_trans hlen (by decide))
  have hboth : (input.clientFacts.isEmpty || input.serverFacts.isEmpty) = false := by
    simp [hc, hs]
  have hresults : (correlate sha256 input).results =
      dedupBy (fun left right => left.resultId = right.resultId)
        (sortBy (orderOn textOrder (·.resultId))
          (input.clientFacts.map (reduceClientFact sha256 input))) := by
    rw [correlate]
    simp only [hboth, hcap]
    rfl
  rw [hresults]
  exact @mem_dedupBy_sortBy _ _ textOrder _ _ _ CorrelationResult.resultId _ result

theorem fact_of_mem_results {result : CorrelationResult}
    (h : result ∈ (correlate sha256 input).results) :
    ∃ client ∈ input.clientFacts, reduceClientFact sha256 input client = result :=
  List.mem_map.mp (List.mem_of_find?_eq_some ((mem_results hc hs hlen).mp h))

theorem mem_results_of_own (hsha : Distinguishes sha256 input) {client : CanonicalFact}
    (hclient : client ∈ input.clientFacts) (hown : Own input client) :
    reduceClientFact sha256 input client ∈ (correlate sha256 input).results := by
  rw [mem_results hc hs hlen]
  have hmem := List.mem_map_of_mem (f := reduceClientFact sha256 input) hclient
  have hsome : ((input.clientFacts.map (reduceClientFact sha256 input)).find? fun other =>
      other.resultId = (reduceClientFact sha256 input client).resultId).isSome :=
    List.find?_isSome.mpr ⟨_, hmem, by simp⟩
  obtain ⟨first, hfirst⟩ := Option.isSome_iff_exists.mp hsome
  obtain ⟨other, hother, rfl⟩ := List.mem_map.mp (List.mem_of_find?_eq_some hfirst)
  have hid : (reduceClientFact sha256 input other).resultId =
      (reduceClientFact sha256 input client).resultId := by
    simpa using List.find?_some hfirst
  rw [hfirst, hown other hother (preimage_of_eq_resultId hsha hother hclient hid)]

theorem eq_of_clientFactHandle (hsha : Distinguishes sha256 input) {client : CanonicalFact}
    (hclient : client ∈ input.clientFacts) (hown : Own input client) {result : CorrelationResult}
    (h : result ∈ (correlate sha256 input).results)
    (hhandle : result.clientFactHandle = some (client.handle sha256 .client input.pair)) :
    result = reduceClientFact sha256 input client := by
  obtain ⟨other, hother, rfl⟩ := fact_of_mem_results hc hs hlen h
  have heq := Option.some.inj ((clientFactHandle_eq sha256 input other).symm.trans hhandle)
  rw [hown other hother (preimage_of_eq_handle hsha hother hclient heq)]

end

theorem results_missing (h : input.clientFacts = [] ∨ input.serverFacts = []) :
    (correlate sha256 input).results = [reduceMissing sha256 input] := by
  have hmissing : (input.clientFacts.isEmpty || input.serverFacts.isEmpty) = true := by
    rcases h with h | h <;> simp [h]
  rw [correlate]
  simp only [hmissing]
  simp [sortBy, dedupBy, dedupFrom]

theorem correlated_of_distinguishes (hlen : input.clientFacts.length ≤ maxFactsPerSide)
    (hsha : Distinguishes sha256 input) : Correlated sha256 input := by
  refine ⟨fun h => ⟨_, results_missing h, rfl, rfl⟩, ?_, ?_, ?_, ?_⟩
  · intro hc hs result hresult
    obtain ⟨client, hclient, rfl⟩ := fact_of_mem_results hc hs hlen hresult
    exact ⟨client, hclient, rfl⟩
  · intro hs client hclient hown
    have hc := List.ne_nil_of_mem hclient
    refine ⟨_, ⟨mem_results_of_own hc hs hlen hsha hclient hown, rfl⟩, ?_⟩
    rintro result ⟨hresult, hhandle⟩
    exact eq_of_clientFactHandle hc hs hlen hsha hclient hown hresult hhandle
  · intro client hclient hown
    have hc := List.ne_nil_of_mem hclient
    rw [← reduceClientFact_causal sha256 input client]
    by_cases hs : input.serverFacts = []
    · constructor
      · rintro ⟨result, hresult, hhandle, -⟩
        rw [results_missing (.inr hs), List.mem_singleton] at hresult
        rw [hresult] at hhandle
        cases hhandle
      · intro hcausal
        obtain ⟨server, hlink⟩ := (reduceClientFact_causal sha256 input client).mp hcausal
        have halone := hlink.alone
        rw [hs] at halone
        cases halone
    · constructor
      · rintro ⟨result, hresult, hhandle, hcausal⟩
        rwa [← eq_of_clientFactHandle hc hs hlen hsha hclient hown hresult hhandle]
      · intro hcausal
        exact ⟨_, mem_results_of_own hc hs hlen hsha hclient hown, rfl, hcausal⟩
  · intro client hclient client' hclient' hne result hresult result' hresult' hhandle hhandle' hid
    have hc := List.ne_nil_of_mem hclient
    by_cases hs : input.serverFacts = []
    · rw [results_missing (.inr hs), List.mem_singleton] at hresult
      rw [hresult] at hhandle
      cases hhandle
    · obtain ⟨fact, hfact, rfl⟩ := fact_of_mem_results hc hs hlen hresult
      obtain ⟨fact', hfact', rfl⟩ := fact_of_mem_results hc hs hlen hresult'
      have heq := preimage_of_eq_resultId hsha hfact hfact' hid
      have hfirst := preimage_of_eq_handle hsha hfact hclient (Option.some.inj hhandle)
      have hsecond := preimage_of_eq_handle hsha hfact' hclient' (Option.some.inj hhandle')
      exact hne (hfirst.symm.trans (heq.trans hsecond))

end

/-- A correlation of facts that are put in order and capped gives each client fact its
result, and does not depend on how the facts come. -/
theorem correlate_correlated (sha256 : Text → Digest) (input : CanonicalInput)
    (hsha : Distinguishes sha256 input.normalize) :
    Correlated sha256 input.normalize ∧ ∀ input' : CanonicalInput, SameFacts input input' →
      correlate sha256 input'.normalize = correlate sha256 input.normalize :=
  ⟨correlated_of_distinguishes (length_normalize input) hsha,
    fun _ h => by rw [normalize_congr h]⟩

/-! ## One client fact -/

def requestFact : CanonicalFact :=
  ⟨"policy=p|request=r".toList, "site=S01".toList, some 10, true, false, "c1".toList⟩

def policyRequest : CanonicalInput where
  pair := .policyManagementPoint
  clientFacts := [requestFact]
  serverFacts := [⟨"policy=p|request=r".toList, "site=S01".toList, some 20, true, true, "s1".toList⟩]
  clientProfile := .validated
  serverProfile := .validated
  clientCoverageComplete := true
  serverCoverageComplete := true
  clientRotationComplete := true
  serverRotationComplete := true
  inputCapped := false

def policyDigest (text : Text) : Digest :=
  if text = "policy-management-point|Client|policy=p|request=r|site=S01|Some(10)|false|c1".toList then
    ⟨[124, 174, 10, 169, 210, 77, 132, 248, 21, 134, 227, 100, 210, 186, 87, 230, 37, 125, 243, 102,
      240, 69, 190, 9, 189, 140, 116, 231, 39, 47, 83, 114], rfl⟩
  else if text =
      "policy-management-point|Server|policy=p|request=r|site=S01|Some(20)|true|s1".toList then
    ⟨[147, 198, 162, 45, 157, 78, 3, 230, 159, 209, 203, 120, 151, 103, 149, 7, 233, 13, 179, 224,
      38, 10, 166, 127, 9, 192, 83, 233, 174, 189, 206, 179], rfl⟩
  else
    ⟨[187, 159, 68, 39, 33, 94, 240, 227, 130, 251, 37, 165, 34, 57, 7, 48, 84, 168, 244, 41,
      75, 140, 140, 22, 18, 112, 81, 62, 232, 65, 190, 57], rfl⟩

theorem distinguishes_of_single (sha256 : Text → Digest) {input : CanonicalInput}
    {fact : CanonicalFact} (h : input.clientFacts = [fact]) : Distinguishes sha256 input := by
  refine ⟨?_, ?_⟩
  all_goals
    rintro text ⟨client, hclient, rfl⟩ text' ⟨client', hclient', rfl⟩ -
    rw [h, List.mem_singleton] at hclient hclient'
    rw [hclient, hclient']

theorem normalize_single {input : CanonicalInput} {fact : CanonicalFact}
    (h : input.clientFacts = [fact]) : input.normalize.clientFacts = [fact] := by
  simp [CanonicalInput.normalize, h, sortedDistinct, sortBy, dedupBy, dedupFrom, maxFactsPerSide]

theorem correlate_correlated_policy :
    Correlated policyDigest policyRequest.normalize ∧
      ∀ input' : CanonicalInput, SameFacts policyRequest input' →
        correlate policyDigest input'.normalize = correlate policyDigest policyRequest.normalize :=
  correlate_correlated policyDigest policyRequest
    (distinguishes_of_single policyDigest (normalize_single rfl))

/-- Without server facts a client fact has no result, whatever the digests are. -/
theorem missing_server_unnamed :
    ¬ ∀ (sha256 : Text → Digest) (input : CanonicalInput), Distinguishes sha256 input.normalize →
      ∀ client ∈ input.normalize.clientFacts,
        ∃ result ∈ (correlate sha256 input.normalize).results,
          result.clientFactHandle = some (client.handle sha256 .client input.pair) := by
  intro h
  have hone := @normalize_single { policyRequest with serverFacts := [] } requestFact rfl
  obtain ⟨result, hresult, hhandle⟩ := h policyDigest { policyRequest with serverFacts := [] }
    (distinguishes_of_single policyDigest hone) requestFact (by rw [hone]; exact List.mem_cons_self)
  have hnone : ({ policyRequest with serverFacts := [] } : CanonicalInput).normalize.serverFacts =
      [] := by simp [CanonicalInput.normalize, sortedDistinct, sortBy, dedupBy]
  rw [results_missing (.inr hnone), List.mem_singleton] at hresult
  rw [hresult] at hhandle
  cases hhandle

end Sccm
end CmTrace
