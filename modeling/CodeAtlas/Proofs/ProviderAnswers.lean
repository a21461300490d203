import CodeAtlas.Proofs.JsonBlanks
import CodeAtlas.Provider.Basic

/-!
# What comes back from a language model

A provider gives a text with something in it, or fails in a way that it puts into words (`Settled`). The
types of a response are checked at some places only, and values of another type get through at the others
(`Slips`). Apart from these, and from bodies that nest deeper than the reader goes, every outcome of a
request is settled (`complete_settled_iff`).
-/

namespace CodeAtlas

/-- A text with something in it, or a failure that is put into words. -/
inductive Settled : Except Failure Json → Prop
  | text {s : String} (h : s ≠ "") : Settled (.ok (.str s))
  | failure {f : Failure} (h : f.isExpected = true) : Settled (.error f)

theorem settled_error_iff (f : Failure) : Settled (.error f) ↔ f.isExpected = true := by
  constructor
  · intro h
    cases h with
    | failure h => exact h
  · exact .failure

theorem settled_ok_iff (j : Json) : Settled (.ok j) ↔ ∃ s, j = .str s ∧ s ≠ "" := by
  constructor
  · intro h
    cases h with
    | text h => exact ⟨_, rfl, h⟩
  · rintro ⟨s, rfl, h⟩
    exact .text h

/-! ## Members that should be texts -/

structure Json.Odd (j : Json) : Prop where
  present : j.isBlank = false
  no_text : j.str? = none

/-- Nothing to read: the member is not there, counts as absent, or is a text of blanks. -/
def Json.Mute (member : Option Json) : Prop :=
  ∀ j, member = some j → j.isBlank = true ∨ ∃ s, j = .str s ∧ Text.strip s = ""

theorem Json.Odd.not_settled {j : Json} (h : j.Odd) : ¬ Settled (.ok j) := by
  rw [settled_ok_iff]
  rintro ⟨s, rfl, -⟩
  cases h.no_text

theorem Json.Odd.not_mute {j : Json} (h : j.Odd) : ¬ Json.Mute (some j) := by
  intro hmute
  rcases hmute j rfl with hblank | ⟨s, rfl, -⟩
  · rw [h.present] at hblank
    cases hblank
  · cases h.no_text

theorem Json.present?_eq_some_iff (member : Option Json) (j : Json) :
    Json.present? member = some j ↔ member = some j ∧ j.isBlank = false := by
  cases member with
  | none => simp [Json.present?]
  | some v =>
    cases hblank : v.isBlank with
    | true =>
      simp only [Json.present?, Option.bind_some, hblank, if_true, reduceCtorEq, false_iff]
      rintro ⟨hv, hj⟩
      cases hv
      rw [hblank] at hj
      cases hj
    | false =>
      simp only [Json.present?, Option.bind_some, hblank, Bool.false_eq_true, if_false,
        Option.some.injEq]
      constructor
      · rintro rfl
        exact ⟨rfl, hblank⟩
      · exact fun h => h.1

theorem Json.mute_of_present?_eq_none {member : Option Json} (h : Json.present? member = none) :
    Json.Mute member := by
  rintro j rfl
  left
  by_contra hblank
  have hsome := (Json.present?_eq_some_iff (some j) j).2 ⟨rfl, Bool.eq_false_iff.2 hblank⟩
  rw [h] at hsome
  cases hsome

theorem ne_empty_of_strip {s : String} (h : (Text.strip s).isEmpty = false) : s ≠ "" := by
  rintro rfl
  exact absurd h (by decide)

namespace Provider

/-- A member is of another type, has nothing to read, or is the text that is read. -/
theorem textOf_cases (members : List (String × Json)) (key : String) :
    (∃ j, Json.lookup members key = some j ∧ j.Odd ∧
      textOf members key = .error (.wrongType j.typeName "strip")) ∨
    (Json.Mute (Json.lookup members key) ∧ textOf members key = .ok none) ∨
    ∃ s, s ≠ "" ∧ ¬ Json.Mute (Json.lookup members key) ∧ textOf members key = .ok (some s) := by
  unfold textOf
  cases hpresent : Json.present? (Json.lookup members key) with
  | none => exact .inr (.inl ⟨Json.mute_of_present?_eq_none hpresent, rfl⟩)
  | some j =>
    obtain ⟨hlookup, hblank⟩ := (Json.present?_eq_some_iff _ _).1 hpresent
    cases hj : j with
    | str s =>
      rw [hj] at hlookup
      cases hempty : (Text.strip s).isEmpty with
      | true =>
        refine .inr (.inl ⟨?_, by simp [hempty]⟩)
        intro j' hj'
        cases hlookup.symm.trans hj'
        exact .inr ⟨s, rfl, String.isEmpty_iff.1 hempty⟩
      | false =>
        refine .inr (.inr ⟨s, ne_empty_of_strip hempty, ?_, by simp [hempty]⟩)
        intro hmute
        rcases hmute _ hlookup with hs | ⟨s', hs', hstrip⟩
        · rw [← hj, hblank] at hs
          cases hs
        · cases hs'
          rw [hstrip] at hempty
          cases hempty
    | _ =>
      left
      rw [hj] at hlookup hblank
      exact ⟨_, hlookup, ⟨hblank, rfl⟩, rfl⟩

theorem textOf_of_odd {members : List (String × Json)} {key : String} {j : Json}
    (h : Json.lookup members key = some j) (hodd : j.Odd) :
    textOf members key = .error (.wrongType j.typeName "strip") := by
  rcases textOf_cases members key with ⟨j', hj', -, herror⟩ | ⟨hmute, -⟩ | ⟨s, -, -, hok⟩
  · cases h.symm.trans hj'
    exact herror
  · rw [h] at hmute
    exact absurd hmute hodd.not_mute
  · have hpresent := (Json.present?_eq_some_iff _ _).2 ⟨h, hodd.present⟩
    unfold textOf at hok
    rw [hpresent] at hok
    cases j with
    | str s => cases hodd.no_text
    | _ => cases hok

theorem textOf_of_mute {members : List (String × Json)} {key : String}
    (h : Json.Mute (Json.lookup members key)) : textOf members key = .ok none := by
  rcases textOf_cases members key with ⟨j, hj, hodd, -⟩ | ⟨-, hok⟩ | ⟨s, -, hloud, -⟩
  · rw [hj] at h
    exact absurd h hodd.not_mute
  · exact hok
  · exact absurd h hloud

end Provider

/-! ## Values that get through -/

/-- The services that answer with a list of choices, each of them a message. -/
def Service.IsChat (s : Service) : Prop :=
  s ≠ .anthropic ∧ s ≠ .ollama

def Json.FirstHas (value : Json) (list key : String) (j : Json) : Prop :=
  ∃ item rest, value.get? list = some (.arr (item :: rest)) ∧ item.get? key = some j

/-- The values of a response that are neither an answer nor a failure in words, with what comes of
them. -/
inductive Slips : Service → Json → Except Failure Json → Prop
  | message {s : Service} {value m : Json} (hs : s.IsChat) (hm : value.FirstHas "choices" "message" m)
      (h : m.obj? = none) : Slips s value (.error (.wrongType m.typeName "get"))
  | content {s : Service} {value j : Json} {members : List (String × Json)} (hs : s.IsChat)
      (hm : value.FirstHas "choices" "message" (.obj members))
      (hj : Json.lookup members "content" = some j) (hodd : j.Odd) :
      Slips s value (.error (.wrongType j.typeName "strip"))
  | reasoning {s : Service} {value j : Json} {members : List (String × Json)} (hs : s.IsChat)
      (hm : value.FirstHas "choices" "message" (.obj members))
      (hmute : Json.Mute (Json.lookup members "content"))
      (hj : Json.lookup members "reasoning" = some j) (hodd : j.Odd) :
      Slips s value (.error (.wrongType j.typeName "strip"))
  | block {value j : Json} (hj : value.FirstHas "content" "text" j) (h : ∀ s, j = .str s → s = "") :
      Slips .anthropic value (.ok j)
  | response {value j : Json} (hj : value.get? "response" = some j) (hodd : j.Odd) :
      Slips .ollama value (.ok j)

theorem Slips.not_settled {s : Service} {value : Json} {r : Except Failure Json}
    (h : Slips s value r) : ¬ Settled r := by
  cases h with
  | block hj h =>
    rw [settled_ok_iff]
    rintro ⟨s, rfl, hs⟩
    exact hs (h s rfl)
  | response hj hodd => exact hodd.not_settled
  | _ =>
    rw [settled_error_iff]
    exact Bool.false_ne_true

namespace Provider

theorem at?_first?_eq_some_iff (value : Json) (list key : String) (j : Json) :
    at? key (first? (value.get? list)) = some j ↔ value.FirstHas list key j := by
  unfold at? first? Json.FirstHas
  simp only [Option.bind_eq_some_iff]
  constructor
  · rintro ⟨item, ⟨items, ⟨found, hfound, hitems⟩, hhead⟩, hj⟩
    obtain ⟨rest, rfl⟩ := List.head?_eq_some_iff.1 hhead
    cases found with
    | arr inner =>
      cases hitems
      exact ⟨item, rest, hfound, hj⟩
    | _ => cases hitems
  · rintro ⟨item, rest, hfound, hj⟩
    exact ⟨item, ⟨item :: rest, ⟨_, hfound, rfl⟩, rfl⟩, hj⟩

section Chat
variable {p : Provider} (hchat : p.service.IsChat) {value : Json}
include hchat

theorem answerIn_of_no_message (h : ∀ m, ¬ value.FirstHas "choices" "message" m) :
    p.answerIn value = .error (.noContent p.service) := by
  obtain ⟨hanthropic, hollama⟩ := hchat
  have hnone : at? "message" (first? (value.get? "choices")) = none := by
    rw [Option.eq_none_iff_forall_ne_some]
    intro m hm
    exact h m ((at?_first?_eq_some_iff _ _ _ _).1 hm)
  unfold answerIn
  cases hs : p.service with
  | anthropic => exact absurd hs hanthropic
  | ollama => exact absurd hs hollama
  | _ => simp only [hnone]

theorem answerIn_of_message {m : Json} (h : value.FirstHas "choices" "message" m) :
    p.answerIn value = (chatText m).bind fun text =>
      text.elim (.error (.noContent p.service)) fun s => .ok (.str s) := by
  obtain ⟨hanthropic, hollama⟩ := hchat
  have hsome := (at?_first?_eq_some_iff _ _ _ _).2 h
  unfold answerIn
  cases hs : p.service with
  | anthropic => exact absurd hs hanthropic
  | ollama => exact absurd hs hollama
  | _ =>
    simp only [hsome]
    cases chatText m with
    | error f => rfl
    | ok text => cases text <;> rfl

theorem answerIn_of_error {m : Json} {f : Failure} (h : value.FirstHas "choices" "message" m)
    (hf : chatText m = .error f) : p.answerIn value = .error f := by
  rw [answerIn_of_message hchat h, hf]
  rfl

end Chat

theorem chatText_of_no_members {m : Json} (h : m.obj? = none) :
    chatText m = .error (.wrongType m.typeName "get") := by
  cases m with
  | obj members => cases h
  | _ => rfl

theorem chatText_of_odd_content {members : List (String × Json)} {j : Json}
    (h : Json.lookup members "content" = some j) (hodd : j.Odd) :
    chatText (.obj members) = .error (.wrongType j.typeName "strip") := by
  simp only [chatText, textOf_of_odd h hodd]
  rfl

theorem chatText_of_mute_content {members : List (String × Json)}
    (h : Json.Mute (Json.lookup members "content")) :
    chatText (.obj members) = textOf members "reasoning" := by
  simp only [chatText, textOf_of_mute h]
  rfl

theorem answerIn_of_slips {p : Provider} {value : Json} {r : Except Failure Json}
    (h : Slips p.service value r) : p.answerIn value = r := by
  generalize hs : p.service = s at h
  cases h with
  | message hchat hm h => exact answerIn_of_error (hs ▸ hchat) hm (chatText_of_no_members h)
  | content hchat hm hj hodd =>
    exact answerIn_of_error (hs ▸ hchat) hm (chatText_of_odd_content hj hodd)
  | reasoning hchat hm hmute hj hodd =>
    apply answerIn_of_error (hs ▸ hchat) hm
    rw [chatText_of_mute_content hmute, textOf_of_odd hj hodd]
  | block hj h =>
    simp only [answerIn, hs, (at?_first?_eq_some_iff _ _ _ _).2 hj]
  | response hj hodd =>
    simp only [answerIn, hs, (Json.present?_eq_some_iff _ _).2 ⟨hj, hodd.present⟩]

/-- The message of a chat is read as a text or as nothing, unless it slips. -/
theorem chatText_cases {s : Service} (hchat : s.IsChat) {value m : Json}
    (hm : value.FirstHas "choices" "message" m) :
    (∃ f, chatText m = .error f ∧ Slips s value (.error f)) ∨ chatText m = .ok none ∨
    ∃ t, t ≠ "" ∧ chatText m = .ok (some t) := by
  cases hobj : m.obj? with
  | none => exact .inl ⟨_, chatText_of_no_members hobj, .message hchat hm hobj⟩
  | some members =>
    have hmembers : m = .obj members := by
      cases m with
      | obj inner =>
        cases hobj
        rfl
      | _ => cases hobj
    subst hmembers
    rcases textOf_cases members "content" with ⟨j, hj, hodd, -⟩ | ⟨hmute, -⟩ | ⟨t, ht, -, htext⟩
    · exact .inl ⟨_, chatText_of_odd_content hj hodd, .content hchat hm hj hodd⟩
    · rw [chatText_of_mute_content hmute]
      rcases textOf_cases members "reasoning" with ⟨j, hj, hodd, herror⟩ | ⟨-, hnone⟩ | ⟨t, ht, -, htext⟩
      · exact .inl ⟨_, herror, .reasoning hchat hm hmute hj hodd⟩
      · exact .inr (.inl hnone)
      · exact .inr (.inr ⟨t, ht, htext⟩)
    · refine .inr (.inr ⟨t, ht, ?_⟩)
      simp only [chatText, htext]
      rfl

theorem answerIn_chat_cases {p : Provider} (hchat : p.service.IsChat) (value : Json) :
    Settled (p.answerIn value) ∨ Slips p.service value (p.answerIn value) := by
  by_cases hmessage : ∃ m, value.FirstHas "choices" "message" m
  · obtain ⟨m, hm⟩ := hmessage
    rcases chatText_cases hchat hm with ⟨f, hf, hslips⟩ | hnone | ⟨t, ht, htext⟩
    · rw [answerIn_of_error hchat hm hf]
      exact .inr hslips
    · rw [answerIn_of_message hchat hm, hnone]
      exact .inl (.failure rfl)
    · rw [answerIn_of_message hchat hm, htext]
      exact .inl (.text ht)
  · rw [answerIn_of_no_message hchat (not_exists.1 hmessage)]
    exact .inl (.failure rfl)

theorem answerIn_anthropic_cases {p : Provider} (hs : p.service = .anthropic) (value : Json) :
    Settled (p.answerIn value) ∨ Slips .anthropic value (p.answerIn value) := by
  simp only [answerIn, hs]
  cases hfound : at? "text" (first? (value.get? "content")) with
  | none => exact .inl (.failure rfl)
  | some j =>
    by_cases htext : ∃ s, j = .str s ∧ s ≠ ""
    · exact .inl ((settled_ok_iff j).2 htext)
    · refine .inr (.block ((at?_first?_eq_some_iff _ _ _ _).1 hfound) fun s hj => ?_)
      by_contra hs
      exact htext ⟨s, hj, hs⟩

theorem answerIn_ollama_cases {p : Provider} (hs : p.service = .ollama) (value : Json) :
    Settled (p.answerIn value) ∨ Slips .ollama value (p.answerIn value) := by
  simp only [answerIn, hs]
  cases hfound : Json.present? (value.get? "response") with
  | none => exact .inl (.failure rfl)
  | some j =>
    obtain ⟨hj, hblank⟩ := (Json.present?_eq_some_iff _ _).1 hfound
    cases hstr : j.str? with
    | none => exact .inr (.response hj ⟨hblank, hstr⟩)
    | some s =>
      left
      cases j with
      | str s' => exact .text fun hempty => absurd hblank (by simp [Json.isBlank, hempty])
      | _ => cases hstr

theorem answerIn_cases (p : Provider) (value : Json) :
    Settled (p.answerIn value) ∨ Slips p.service value (p.answerIn value) := by
  cases hs : p.service with
  | anthropic => exact answerIn_anthropic_cases hs value
  | ollama => exact answerIn_ollama_cases hs value
  | _ =>
    rw [← hs]
    exact answerIn_chat_cases (by simp [Service.IsChat, hs]) value

/-- What is neither an answer nor a failure in words comes from a value that slips. -/
theorem answerIn_eq_iff_slips (p : Provider) (value : Json) (r : Except Failure Json) :
    p.answerIn value = r ∧ ¬ Settled r ↔ Slips p.service value r := by
  constructor
  · rintro ⟨rfl, hr⟩
    exact (answerIn_cases p value).resolve_left hr
  · intro h
    exact ⟨answerIn_of_slips h, h.not_settled⟩

/-! ## Outcomes of a request -/

/-- The outcomes that are neither an answer nor a failure in words: a body that nests too deeply, and a
value that slips. -/
inductive Escapes (s : Service) : HttpOutcome → Except Failure Json → Prop
  | nesting {status : Int} {reason body : String} (hstatus : isSuccess status = true)
      (h : Json.read (dropMark body) = .error .tooDeep) :
      Escapes s (.response status reason body) (.error .tooDeep)
  | value {status : Int} {reason body : String} {value : Json} {r : Except Failure Json}
      (hstatus : isSuccess status = true) (h : Json.read (dropMark body) = .ok value)
      (hslips : Slips s value r) : Escapes s (.response status reason body) r

theorem answer_eq_iff_escapes (p : Provider) (q : Question) (outcome : HttpOutcome)
    (r : Except Failure Json) :
    p.answer q outcome = r ∧ ¬ Settled r ↔ Escapes p.service outcome r := by
  constructor
  · rintro ⟨rfl, hr⟩
    cases outcome with
    | timedOut => exact absurd (.failure rfl) hr
    | unreachable text => exact absurd (.failure rfl) hr
    | response status reason body =>
      cases hstatus : isSuccess status with
      | false =>
        simp only [answer, hstatus, Bool.not_false, if_true] at hr
        exact absurd (.failure rfl) hr
      | true =>
        cases hread : Json.read (dropMark body) with
        | ok value =>
          simp only [answer, hstatus, hread, Bool.not_true, Bool.false_eq_true, if_false] at hr ⊢
          exact .value hstatus hread ((answerIn_eq_iff_slips p value _).1 ⟨rfl, hr⟩)
        | error e =>
          simp only [answer, hstatus, hread, Bool.not_true, Bool.false_eq_true, if_false] at hr ⊢
          cases e with
          | tooDeep => exact .nesting hstatus hread
          | _ => exact absurd (.failure rfl) hr
  · intro h
    cases h with
    | nesting hstatus h =>
      simp only [answer, hstatus, h, Bool.not_true, Bool.false_eq_true, if_false, true_and]
      rw [settled_error_iff]
      exact Bool.false_ne_true
    | value hstatus h hslips =>
      simp only [answer, hstatus, h, Bool.not_true, Bool.false_eq_true, if_false]
      exact (answerIn_eq_iff_slips p _ _).2 hslips

/-! ## Requests -/

theorem contents_isOk {messages : List Message}
    (h : ∀ m ∈ messages, m.role ≠ none ∧ m.content ≠ none) (fromSystem : Bool) :
    ∃ texts, contents fromSystem messages = .ok texts := by
  induction messages with
  | nil => exact ⟨[], rfl⟩
  | cons m messages ih =>
    obtain ⟨texts, htexts⟩ := ih fun m hm => h m (List.mem_cons_of_mem _ hm)
    obtain ⟨hrole, hcontent⟩ := h m List.mem_cons_self
    obtain ⟨role, hrole⟩ := Option.ne_none_iff_exists'.1 hrole
    obtain ⟨content, hcontent⟩ := Option.ne_none_iff_exists'.1 hcontent
    rw [contents]
    simp only [hrole, hcontent, htexts]
    split
    · exact ⟨content :: texts, rfl⟩
    · exact ⟨texts, rfl⟩

def CanAsk (p : Provider) : Prop :=
  p.service = .ollama ∨ p.apiKey.isBlank = false

theorem request_cases (p : Provider) {q : Question}
    (h : ∀ m ∈ q.messages, m.role ≠ none ∧ m.content ≠ none) :
    (p.CanAsk ∧ ∃ request, p.request q = .ok request) ∨
    (¬ p.CanAsk ∧ p.request q = .error (.noKey p.service)) := by
  obtain ⟨system, hsystem⟩ := contents_isOk h true
  obtain ⟨prompt, hprompt⟩ := contents_isOk h false
  unfold CanAsk request
  cases hs : p.service with
  | ollama =>
    refine .inl ⟨.inl rfl, ?_⟩
    simp only [hsystem, hprompt]
    exact ⟨_, rfl⟩
  | anthropic =>
    cases hkey : p.apiKey.isBlank with
    | true => exact .inr ⟨by simp, rfl⟩
    | false =>
      refine .inl ⟨.inr rfl, ?_⟩
      simp only [hsystem]
      exact ⟨_, rfl⟩
  | _ =>
    cases hkey : p.apiKey.isBlank with
    | true => exact .inr ⟨by simp, rfl⟩
    | false => exact .inl ⟨.inr rfl, _, rfl⟩

theorem complete_of_request {p : Provider} {q : Question} {request : HttpRequest}
    (h : p.request q = .ok request) (network : HttpRequest → HttpOutcome) :
    p.complete network q = p.answer q (network request) := by
  unfold complete
  rw [h]
  rfl

theorem not_settled_of_escapes {p : Provider} {q : Question} {request : HttpRequest}
    {network : HttpRequest → HttpOutcome} {r : Except Failure Json} (h : p.request q = .ok request)
    (hr : Escapes p.service (network request) r) : ¬ Settled (p.complete network q) := by
  obtain ⟨hanswer, hnot⟩ := (answer_eq_iff_escapes p q (network request) r).2 hr
  rw [complete_of_request h, hanswer]
  exact hnot

/-- Asking with messages that have their fields. A provider without the key it wants says so and asks
nothing. Else the outcome is settled, for every network, unless it is a body that nests too deeply or a
value that slips; and what these become is given by `Escapes`. -/
theorem complete_settled_iff (p : Provider) (network : HttpRequest → HttpOutcome) (q : Question)
    (hmessages : ∀ m ∈ q.messages, m.role ≠ none ∧ m.content ≠ none) :
    ((∃ request, p.request q = .ok request) ↔ p.CanAsk) ∧
    (¬ p.CanAsk → p.complete network q = .error (.noKey p.service)) ∧
    (Settled (p.complete network q) ↔
      ∀ request, p.request q = .ok request → ∀ r, ¬ Escapes p.service (network request) r) ∧
    (∀ r, p.complete network q = r ∧ ¬ Settled r ↔
      ∃ request, p.request q = .ok request ∧ Escapes p.service (network request) r) := by
  rcases request_cases p hmessages with ⟨hcan, request, hrequest⟩ | ⟨hcannot, hrequest⟩
  · have hcomplete := complete_of_request hrequest network
    have hiff := answer_eq_iff_escapes p q (network request)
    refine ⟨⟨fun _ => hcan, fun _ => ⟨request, hrequest⟩⟩, fun h => absurd hcan h, ?_, ?_⟩
    · rw [hcomplete]
      constructor
      · intro hsettled other hother r hr
        cases hrequest.symm.trans hother
        obtain ⟨hanswer, hnot⟩ := (hiff r).2 hr
        exact hnot (hanswer ▸ hsettled)
      · intro hnone
        by_contra hnot
        exact hnone request hrequest _ ((hiff _).1 ⟨rfl, hnot⟩)
    · intro r
      rw [hcomplete, hiff]
      constructor
      · intro h
        exact ⟨request, hrequest, h⟩
      · rintro ⟨other, hother, h⟩
        cases hrequest.symm.trans hother
        exact h
  · have hcomplete : p.complete network q = .error (.noKey p.service) := by
      unfold complete
      rw [hrequest]
      rfl
    have hsettled : Settled (p.complete network q) := by
      rw [hcomplete]
      exact .failure rfl
    refine ⟨⟨?_, fun h => absurd h hcannot⟩, fun _ => hcomplete, ⟨fun _ => ?_, fun _ => hsettled⟩, ?_⟩
    · rintro ⟨request, hok⟩
      cases hrequest.symm.trans hok
    · intro request hok
      cases hrequest.symm.trans hok
    · intro r
      constructor
      · rintro ⟨rfl, hnot⟩
        exact absurd hsettled hnot
      · rintro ⟨request, hok, -⟩
        cases hrequest.symm.trans hok

/-- Three bodies that slip, one for each kind of response. -/
theorem complete_of_slipping_bodies :
    let ask (service : Service) (body : String) : Except Failure Json :=
      complete { service, model := .str "m", endpoint := .str "e", apiKey := .str "k" }
        (fun _ => .response 200 "OK" body)
        { messages := [⟨some "user", some "hi"⟩], temperature := .int 0 }
    ¬ Settled (ask .openai r#"{"choices": [{"message": null}]}"#) ∧
    ¬ Settled (ask .anthropic r#"{"content": [{"text": ""}]}"#) ∧
    ¬ Settled (ask .ollama r#"{"response": 5}"#) := by
  intro ask
  have hask : ∀ service body r, Escapes service (.response 200 "OK" body) r → ¬ Settled (ask service body) := by
    intro service body r h
    cases service <;> exact not_settled_of_escapes rfl h
  refine ⟨?_, ?_, ?_⟩
  · have hread : Json.read (dropMark r#"{"choices": [{"message": null}]}"#) =
        .ok (.obj [("choices", .arr [.obj [("message", .null)]])]) := by decide +kernel
    exact hask _ _ _ (.value rfl hread (.message ⟨by decide, by decide⟩ ⟨_, _, rfl, rfl⟩ rfl))
  · have hread : Json.read (dropMark r#"{"content": [{"text": ""}]}"#) =
        .ok (.obj [("content", .arr [.obj [("text", .str "")]])]) := by decide +kernel
    exact hask _ _ _ (.value rfl hread (.block ⟨_, _, rfl, rfl⟩ (by simp)))
  · have hread : Json.read (dropMark r#"{"response": 5}"#) = .ok (.obj [("response", .int 5)]) := by
      decide +kernel
    exact hask _ _ _ (.value rfl hread (.response rfl ⟨rfl, rfl⟩))

/-- A question whose answer is in the reasoning, as the content is blank. -/
theorem complete_settled_of_reasoning :
    let p : Provider :=
      { service := .groq, model := .str "m", endpoint := .str "e", apiKey := .str "k" }
    let q : Question := { messages := [⟨some "user", some "hi"⟩], temperature := .int 0 }
    let body := r#"{"choices": [{"message": {"content": " ", "reasoning": "r"}}]}"#
    let network : HttpRequest → HttpOutcome := fun _ => .response 200 "OK" body
    (∀ m ∈ q.messages, m.role ≠ none ∧ m.content ≠ none) ∧ p.CanAsk ∧
    p.complete network q = .ok (.str "r") ∧
    ∀ request, p.request q = .ok request → ∀ r, ¬ Escapes p.service (network request) r := by
  intro p q body network
  have hmessages : ∀ m ∈ q.messages, m.role ≠ none ∧ m.content ≠ none := by simp [q]
  have hread : Json.read (dropMark body) = .ok (.obj [("choices", .arr [.obj [("message",
      .obj [("content", .str " "), ("reasoning", .str "r")])]])]) := by decide +kernel
  have hanswer : p.complete network q = .ok (.str "r") := by
    have hcomplete : p.complete network q = p.answer q (.response 200 "OK" body) := rfl
    simp only [hcomplete, answer, hread]
    rfl
  have hsettled : Settled (p.complete network q) := by
    rw [hanswer]
    exact .text (by decide)
  exact ⟨hmessages, .inr rfl, hanswer, (complete_settled_iff p network q hmessages).2.2.1.1 hsettled⟩

end Provider

end CodeAtlas
