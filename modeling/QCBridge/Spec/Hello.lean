import QCBridge.Ring1.Hello

/-!
# What a hello comes to

The verdict is what it should be wherever there is one, and there is one unless a token that is not
ASCII is compared. The derivation of an agent's token is in hexadecimal; the token of a user goes
into the comparison as it was typed.

## Key results

- `checkHello_exact_iff`: when a hello gets its verdict
- `checkHello_makeHello`: when a hello passes with the token that it was made with
- `checkHello_iff`: both, for the tokens of the transports
-/

namespace QCBridge

/-! ## The comparison -/

section

variable {repr : PyValue → String} {msg : Dict String PyValue} {expected : String}

def IsHello (msg : Dict String PyValue) : Prop := (msg.get? "kind").any (·.eqStr "hello") = true

/-- The token of a message, as a string. -/
def tokenText (repr : PyValue → String) (msg : Dict String PyValue) : String :=
  ((msg.get? "token").getD (.str "")).text repr

def ProtocolMatches (msg : Dict String PyValue) : Prop :=
  ((msg.get? "protocol").getD .null).eqInt protocolVersion = true

private theorem compareDigest_eq_none_iff (a b : String) :
    compareDigest a b = none ↔ ¬ (isAscii a = true ∧ isAscii b = true) := by
  unfold compareDigest
  rw [← Bool.and_eq_true]
  split <;> simp_all

private theorem compareDigest_of_ascii {a b : String} (ha : isAscii a = true)
    (hb : isAscii b = true) :
    compareDigest a b = some (decide (a = b)) := by
  unfold compareDigest
  rw [ha, hb]
  rfl

/-- It returns, and the verdict is right. -/
def ExactVerdict (repr : PyValue → String) (msg : Dict String PyValue) (expected : String) : Prop :=
  ∃ ok reason, checkHello repr msg expected = some (ok, reason) ∧
    (ok = true ↔ IsHello msg ∧ tokenText repr msg = expected ∧ ProtocolMatches msg)

private theorem checkHello_of_not_hello (h : ¬ IsHello msg) :
    checkHello repr msg expected = some (false, "not a hello") :=
  if_pos (by rw [Bool.not_eq_true']; exact Bool.eq_false_iff.mpr h)

/-- All of it, for a hello. -/
private theorem checkHello_of_hello (h : IsHello msg) :
    checkHello repr msg expected = (compareDigest (tokenText repr msg) expected).bind fun same =>
      if !same then some (false, "token mismatch")
      else
        let protocol := (msg.get? "protocol").getD .null
        if !protocol.eqInt protocolVersion then
          some (false, "protocol " ++ protocol.text repr ++ " != " ++ toString protocolVersion)
        else some (true, "") := by
  unfold checkHello
  rw [if_neg (by rw [show (msg.get? "kind").any (·.eqStr "hello") = true from h]; decide)]
  rfl

theorem checkHello_exact_iff (repr : PyValue → String) (msg : Dict String PyValue)
    (expected : String) :
    ExactVerdict repr msg expected ↔
      ¬ IsHello msg ∨ isAscii (tokenText repr msg) = true ∧ isAscii expected = true := by
  by_cases hhello : IsHello msg
  · -- a hello with both texts in ASCII: the digests can be compared
    by_cases hascii : isAscii (tokenText repr msg) = true ∧ isAscii expected = true
    · refine iff_of_true ?_ (.inr hascii)
      have hcheck : checkHello repr msg expected = _ := checkHello_of_hello hhello
      rw [compareDigest_of_ascii hascii.1 hascii.2, Option.bind_some] at hcheck
      -- the token agrees: the protocol decides
      by_cases htoken : tokenText repr msg = expected
      · by_cases hprotocol : ProtocolMatches msg
        · have hmatch : ((msg.get? "protocol").getD .null).eqInt protocolVersion = true := hprotocol
          simp only [htoken, decide_true, hmatch, Bool.not_true, Bool.false_eq_true,
            if_false] at hcheck
          exact ⟨true, _, hcheck, by simp [hhello, htoken, hprotocol]⟩
        · have hno : ((msg.get? "protocol").getD .null).eqInt protocolVersion = false :=
            Bool.eq_false_iff.mpr hprotocol
          simp only [htoken, decide_true, hno, Bool.not_true, Bool.not_false, if_true,
            Bool.false_eq_true, if_false] at hcheck
          exact ⟨false, _, hcheck, by simp [hprotocol]⟩
      · -- it does not
        simp only [htoken, decide_false, Bool.not_false, if_true] at hcheck
        exact ⟨false, _, hcheck, by simp [htoken]⟩
    · -- a hello with another text: comparing them raises
      refine iff_of_false ?_ (not_or.mpr ⟨not_not_intro hhello, hascii⟩)
      rintro ⟨ok, reason, hcheck, -⟩
      rw [checkHello_of_hello hhello, (compareDigest_eq_none_iff _ _).mpr hascii] at hcheck
      cases hcheck
  · -- no hello is refused before anything is compared
    exact iff_of_true ⟨false, _, checkHello_of_not_hello hhello, by simp [hhello]⟩ (.inl hhello)

end

/-! ## A hello with the token in force -/

private theorem makeHello_fields (token : String) (a : HelloArgs) :
    (makeHello token a).get? "kind" = some (.str "hello") ∧
      (makeHello token a).get? "token" = some (.str token) ∧
      (makeHello token a).get? "protocol" = some (.int protocolVersion) := by
  simp only [makeHello, Dict.ofList, List.foldl_cons, List.foldl_nil, Dict.get?_insert,
    String.reduceEq, if_false, if_true, and_self]

theorem checkHello_makeHello (repr : PyValue → String) (token : String) (a : HelloArgs) :
    checkHello repr (makeHello token a) token = some (true, "") ↔ isAscii token = true := by
  obtain ⟨hkind, htoken, hprotocol⟩ := makeHello_fields token a
  have hhello : IsHello (makeHello token a) := by
    unfold IsHello
    rw [hkind]
    rfl
  have htext : tokenText repr (makeHello token a) = token := by
    unfold tokenText
    rw [htoken]
    rfl
  rw [checkHello_of_hello hhello, htext, hprotocol]
  by_cases hascii : isAscii token = true
  · rw [compareDigest_of_ascii hascii hascii, decide_eq_true rfl]
    exact iff_of_true rfl hascii
  · rw [(compareDigest_eq_none_iff _ _).mpr fun h => hascii h.1]
    exact iff_of_false (fun h => by cases h) hascii

/-! ## The tokens in force -/

section

variable (sha256 : List UInt8 → List UInt8)

private theorem isAscii_sha256Hex (s : String) : ∀ c ∈ sha256Hex sha256 s, c.toNat < 128 :=
  Hex.forall_mem_encode (by decide) _

private theorem isAscii_ofList {l : List Char} (h : ∀ c ∈ l, c.toNat < 128) :
    isAscii (.ofList l) = true := by
  unfold isAscii
  rw [String.toList_ofList, List.all_eq_true]
  exact fun c hc => decide_eq_true (h c hc)

private theorem isAscii_helloSecret (token : String) :
    isAscii (helloSecret sha256 token) = true := by
  unfold helloSecret
  split
  · rfl
  · exact isAscii_ofList (isAscii_sha256Hex sha256 _)

/-- What there may be from an agent: nothing yet, what `live_view` reports, or the token, from an
    older agent. -/
inductive Reported (sha256 : List UInt8 → List UInt8) : AgentConfig → Prop where
  | nothing : Reported sha256 {}
  | derived (token : String) : Reported sha256 (.ofToken sha256 token)
  | older (token : String) : Reported sha256 { token := some token }

/-- The token that the user typed is the one in force. -/
def Typed (sha256 : List UInt8 → List UInt8) (t : SecretTransport) : Prop :=
  agentSecrets sha256 t = none ∧ t.agentMode = false

private theorem secrets_of_typed {t : SecretTransport} (h : Typed sha256 t) (prefsToken : String)
    (fallbackToken : Option String) :
    (secrets sha256 prefsToken t fallbackToken).1 = fallbackToken.getD prefsToken := by
  unfold secrets
  rw [h.1, h.2]
  rfl

/-- Any other is a derivation, or empty. -/
private theorem isAscii_secrets {t : SecretTransport} (hreported : Reported sha256 t.agentConfig)
    (h : ¬ Typed sha256 t) (prefsToken : String) (fallbackToken : Option String) :
    isAscii (secrets sha256 prefsToken t fallbackToken).1 = true := by
  unfold secrets
  -- nothing is mirrored: an attached agent gives the empty secret then
  cases hsecrets : agentSecrets sha256 t with
  | none =>
    have hmode : t.agentMode = true := by
      by_contra hno
      exact h ⟨hsecrets, Bool.eq_false_iff.mpr hno⟩
    rw [hmode]
    rfl
  -- what is mirrored is a derivation
  | some fromAgent =>
    show isAscii fromAgent.1 = true
    unfold agentSecrets at hsecrets
    cases hcfg : t.agentConfig with
    | mk hello srt token =>
      rw [hcfg] at hreported hsecrets
      cases hreported with
      | nothing => cases hsecrets
      | derived token =>
        cases hsecrets
        exact isAscii_helloSecret sha256 token
      | older token =>
        dsimp only [Option.getD_some] at hsecrets
        split at hsecrets
        · cases hsecrets
        · cases hsecrets
          exact isAscii_helloSecret sha256 token

/-- There is a verdict, and it is the right one, exactly where the message is no hello or both
    tokens are ASCII; and a hello passes with the token in force unless the user typed that and it
    is not. -/
theorem checkHello_iff (repr : PyValue → String) :
    (∀ msg expected, ExactVerdict repr msg expected ↔
      ¬ IsHello msg ∨ isAscii (tokenText repr msg) = true ∧ isAscii expected = true) ∧
    ∀ (t : SecretTransport) (prefsToken : String) (fallbackToken : Option String) (a : HelloArgs),
      Reported sha256 t.agentConfig →
      let token := (secrets sha256 prefsToken t fallbackToken).1
      (checkHello repr (makeHello token a) token = some (true, "") ↔
        (Typed sha256 t → isAscii (fallbackToken.getD prefsToken) = true)) := by
  refine ⟨checkHello_exact_iff repr, fun t prefsToken fallbackToken a hreported => ?_⟩
  intro token
  rw [checkHello_makeHello]
  show isAscii (secrets sha256 prefsToken t fallbackToken).1 = true ↔ _
  by_cases htyped : Typed sha256 t
  · rw [secrets_of_typed sha256 htyped]
    exact ⟨fun h _ => h, fun h => h htyped⟩
  · exact iff_of_true (isAscii_secrets sha256 hreported htyped _ _) fun h => absurd h htyped

end

theorem checkHello_iff_plain :
    checkHello (fun _ => "") (makeHello "studio" ⟨"e1", "5.2.0", "", 0, 0, none, none, none, none⟩)
      "studio" = some (true, "") :=
  ((checkHello_iff (fun _ => []) fun _ => "").2 {} "studio" none
    ⟨"e1", "5.2.0", "", 0, 0, none, none, none, none⟩ .nothing).mpr fun _ => by decide

/-- The two ends have the same token, and there is no verdict. -/
theorem checkHello_counterexample :
    (secrets (fun _ => []) "señal" {}).1 = "señal" ∧
    checkHello (fun _ => "") (makeHello "señal" ⟨"e1", "5.2.0", "", 0, 0, none, none, none, none⟩)
      "señal" = none ∧
    ¬ ExactVerdict (fun _ => "")
      (makeHello "señal" ⟨"e1", "5.2.0", "", 0, 0, none, none, none, none⟩) "señal" := by
  have hnone : checkHello (fun _ => "")
      (makeHello "señal" ⟨"e1", "5.2.0", "", 0, 0, none, none, none, none⟩) "señal" = none := by
    rfl
  refine ⟨rfl, hnone, ?_⟩
  rintro ⟨ok, reason, hcheck, -⟩
  rw [hnone] at hcheck
  cases hcheck

end QCBridge
