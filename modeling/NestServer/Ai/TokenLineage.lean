import Mathlib.Logic.Relation
import NestServer.Ai.McpOAuth

/-! # Lineage of MCP tokens

    Each request takes one code or one refresh token out of its collection and makes
    at most one refresh token for it.  What descends from a code is therefore a
    chain, of which only the last one can still be there. -/

namespace McpOAuth

open Dialogue Interleaving

/-! ## What a request does alone -/

/-- Who may get tokens for a document. -/
def Request.client : Request → Option String
  | .saveAuthorizationCode _ _          => none
  | .challengeForAuthorizationCode _    => none
  | .exchangeAuthorizationCode client _ => client
  | .exchangeRefreshToken client _      => client

abbrev Exchange := Dialogue.Exchange Query Answer

/-- What an exchange has taken out of its collection. -/
def taken : Exchange → Option (Item × RefreshToken)
  | ⟨.consumeAuthorizationCode code, .ok (some doc)⟩ =>
      some (.code code, { clientId := doc.clientId, userId := doc.userId })
  | ⟨.deleteRefreshToken token _, .ok (some doc)⟩    => some (.refreshToken token, doc.val)
  | _                                                => none

/-- The first exchange has taken something for the client of the request. -/
def Took (r : Request) (x : Exchange) (doc : RefreshToken) : Prop :=
  (∃ item, taken x = some (item, doc)) ∧ r.client = some doc.clientId

/-- What a request asks, and when. -/
def asks (r : Request) (h : History) : Query → Prop
  | .consumeAuthorizationCode _   => h = []
  | .deleteRefreshToken _ _       => h = []
  | .generateId                   => ∃ x doc, h = [x, ⟨.ensureIndexes, ()⟩] ∧ Took r x doc
  | .insertRefreshToken token doc =>
      ∃ x, h = [x, ⟨.ensureIndexes, ()⟩, ⟨.generateId, token⟩] ∧ Took r x doc
  | _                             => True

/-- Tokens are a result for what the request has taken. -/
def result (r : Request) : Response → History → Prop
  | .tokens t, h =>
      ∃ x doc inserted, h = [x, ⟨.ensureIndexes, ()⟩, ⟨.generateId, t.refreshToken⟩, inserted] ∧
        Took r x doc ∧ t.accessToken = signAccessToken doc.userId doc.clientId
  | _, _         => True

def law : Law Request Query Answer Response where
  asks   := asks
  result := result

theorem wp_issueRefreshToken {r : Request} {x : Exchange} {doc : RefreshToken} (hx : Took r x doc) :
    wp (asks r) (fun _ => True) (issueRefreshToken doc.userId doc.clientId) (fun token h =>
      ∃ inserted, h = [x, ⟨.ensureIndexes, ()⟩, ⟨.generateId, token⟩, inserted]) [x] := by
  refine wp_bind (wp_query trivial fun _ => ?_) (fun _ _ hw => hw)
  refine wp_bind (wp_query ⟨x, doc, rfl, hx⟩ fun token => ?_) (fun _ _ hw => hw)
  refine wp_bind (wp_query ⟨x, rfl, hx⟩ fun inserted => ?_) (fun _ _ hw => hw)
  refine wp_bind (wp_orThrow (R := fun _ h => ∃ inserted, h = [x, ⟨.ensureIndexes, ()⟩,
    ⟨.generateId, token⟩, inserted]) (fun _ _ => ⟨_, rfl⟩) (fun _ _ => trivial)) ?_
  intro _ h hh
  exact wp_pure hh

theorem wp_exchangeAuthorizationCode (client : Option String) (code : String) :
    wp (asks (.exchangeAuthorizationCode client code)) (fun _ => True)
      (exchangeAuthorizationCode client code) (result (.exchangeAuthorizationCode client code))
        [] := by
  refine wp_bind (wp_query rfl fun found => ?_) (fun _ _ hw => hw)
  refine wp_bind (wp_orThrow (R := fun stored h =>
    h = [⟨.consumeAuthorizationCode code, .ok stored⟩]) ?_ (fun _ _ => trivial)) ?_
  · rintro stored rfl
    rfl
  · rintro stored h rfl
    cases stored with
    | none => exact wp_failed_iff.mpr trivial
    | some stored =>
        dsimp only
        split
        · exact wp_failed_iff.mpr trivial
        · rename_i hclient
          rw [not_not] at hclient
          have hx : Took (.exchangeAuthorizationCode client code)
              ⟨.consumeAuthorizationCode code, .ok (some stored)⟩
              { clientId := stored.clientId, userId := stored.userId } := ⟨⟨_, rfl⟩, hclient.symm⟩
          refine wp_bind (wp_issueRefreshToken hx) ?_
          rintro token h ⟨inserted, rfl⟩
          exact wp_pure ⟨_, _, inserted, rfl, hx, rfl⟩

theorem wp_exchangeRefreshToken (client : Option String) (token : String) :
    wp (asks (.exchangeRefreshToken client token)) (fun _ => True)
      (exchangeRefreshToken client token) (result (.exchangeRefreshToken client token)) [] := by
  rw [exchangeRefreshToken]
  split
  · exact wp_failed_iff.mpr trivial
  · rename_i callerClientId hclient
    have hclient := (Option.filter_eq_some_iff.mp hclient).1
    refine wp_bind (R := fun rotated h => ∀ value newToken, rotated = some (value, newToken) →
      ∃ x inserted, h = [x, ⟨.ensureIndexes, ()⟩, ⟨.generateId, newToken⟩, inserted] ∧
        Took (.exchangeRefreshToken client token) x value) ?_ ?_
    · rw [rotateRefreshToken]
      split
      · exact wp_pure (by rintro value newToken ⟨⟩)
      · refine wp_bind (wp_query rfl fun deleted => ?_) (fun _ _ hw => hw)
        refine wp_bind (wp_orThrow (R := fun value h =>
          h = [⟨.deleteRefreshToken token callerClientId, .ok value⟩]) ?_ (fun _ _ => trivial)) ?_
        · rintro value rfl
          rfl
        · rintro value h rfl
          cases value with
          | none => exact wp_pure (by rintro value newToken ⟨⟩)
          | some value =>
              obtain ⟨value, hvalue⟩ := value
              have hx : Took (.exchangeRefreshToken client token)
                  ⟨.deleteRefreshToken token callerClientId, .ok (some ⟨value, hvalue⟩)⟩ value := by
                refine ⟨⟨_, rfl⟩, ?_⟩
                rw [hvalue]
                exact hclient
              refine wp_bind (wp_issueRefreshToken hx) ?_
              rintro newToken h ⟨inserted, rfl⟩
              refine wp_pure ?_
              rintro value' newToken' heq
              cases heq
              exact ⟨_, inserted, rfl, hx⟩
    · intro rotated h hrotated
      cases rotated with
      | none => exact wp_failed_iff.mpr trivial
      | some rotated =>
          obtain ⟨value, newToken⟩ := rotated
          obtain ⟨x, inserted, hh, hx⟩ := hrotated value newToken rfl
          exact wp_pure ⟨x, value, inserted, hh, hx, rfl⟩

theorem wp_saveAuthorizationCode (code : String) (data : AuthorizationCode) :
    wp (asks (.saveAuthorizationCode code data)) (fun _ => True) (saveAuthorizationCode code data)
      (result (.saveAuthorizationCode code data)) [] := by
  refine wp_bind (wp_query trivial fun _ => ?_) (fun _ _ hw => hw)
  refine wp_bind (wp_query trivial fun inserted => ?_) (fun _ _ hw => hw)
  refine wp_bind (wp_orThrow (R := fun _ _ => True) (fun _ _ => trivial) (fun _ _ => trivial)) ?_
  intro _ _ _
  exact wp_pure trivial

theorem wp_challengeForAuthorizationCode (code : String) :
    wp (asks (.challengeForAuthorizationCode code)) (fun _ =>
      True) (challengeForAuthorizationCode code)
      (result (.challengeForAuthorizationCode code)) [] := by
  refine wp_bind (wp_query trivial fun found => ?_) (fun _ _ hw => hw)
  refine wp_bind (wp_orThrow (R := fun _ _ => True) (fun _ _ => trivial) (fun _ _ => trivial)) ?_
  intro _ _ _
  exact wp_pure trivial

theorem wp_program (r : Request) :
    wp (law.asks r) (law.fails r) (system.program r) (law.result r) [] := by
  cases r with
  | saveAuthorizationCode code data => exact wp_saveAuthorizationCode code data
  | challengeForAuthorizationCode code => exact wp_challengeForAuthorizationCode code
  | exchangeAuthorizationCode client code => exact wp_exchangeAuthorizationCode client code
  | exchangeRefreshToken client token => exact wp_exchangeRefreshToken client token

/-! ## What a thread has taken and made -/

/-- The thread has taken the item, with this document. -/
def Takes (s : State) (i : Nat) (item : Item) (doc : RefreshToken) : Prop :=
  Says s i fun x => taken x = some (item, doc)

def Makes (s : State) (i : Nat) (token : String) : Prop :=
  Says s i fun x => x = ⟨.generateId, token⟩

/-- The thread has sent the document of a token to the collection. -/
def Inserts (s : State) (i : Nat) (token : String) (doc : RefreshToken) : Prop :=
  Says s i fun x => x.1 = .insertRefreshToken token doc

theorem asks_of_taken {r : Request} {h : History} {x : Exchange} {item : Item} {doc : RefreshToken}
    (hx : taken x = some (item, doc)) (hasks : asks r h x.1) : h = [] := by
  rw [taken.eq_def] at hx
  split at hx
  · exact hasks
  · exact hasks
  · cases hx

/-- What a lawful thread has taken is its first exchange. -/
theorem taken_first {τ : Thread} (hτ : Lawful law τ) {x : Exchange} (hx : x ∈ τ.said) {item : Item}
    {doc : RefreshToken} (htaken : taken x = some (item, doc)) : ∃ after, τ.said = x :: after := by
  obtain ⟨before, after, hsaid, hasks⟩ := hτ.said.split hx
  obtain rfl : before = [] := asks_of_taken htaken hasks
  exact ⟨after, hsaid⟩

theorem made_third {τ : Thread} (hτ : Lawful law τ) {token : String}
    (hx : (⟨.generateId, token⟩ : Exchange) ∈ τ.said) :
    ∃ x doc after, τ.said = x :: ⟨.ensureIndexes, ()⟩ :: ⟨.generateId, token⟩ :: after ∧
      Took τ.request x doc := by
  obtain ⟨before, after, hsaid, hasks⟩ := hτ.said.split hx
  obtain ⟨x, doc, hbefore, htook⟩ :
      ∃ x doc, before = [x, ⟨.ensureIndexes, ()⟩] ∧ Took τ.request x doc := hasks
  rw [hbefore] at hsaid
  exact ⟨x, doc, after, hsaid, htook⟩

section Laws

variable {s : State} (hs : AllLawful law s)

include hs

theorem Takes.unique {i : Nat} {item item' : Item} {doc doc' : RefreshToken}
    (h : Takes s i item doc) (h' : Takes s i item' doc') : item = item' ∧ doc = doc' := by
  obtain ⟨τ, hτ, x, hx, htaken⟩ := h
  obtain ⟨τ', hτ', x', hx', htaken'⟩ := h'
  rw [hτ] at hτ'
  obtain rfl := Option.some.inj hτ'
  have hlawful := hs τ (List.mem_of_getElem? hτ)
  obtain ⟨after, hsaid⟩ := taken_first hlawful hx htaken
  obtain ⟨after', hsaid'⟩ := taken_first hlawful hx' htaken'
  rw [hsaid] at hsaid'
  rw [(List.cons.inj hsaid').1, htaken'] at htaken
  obtain ⟨rfl, rfl⟩ := Prod.mk.inj (Option.some.inj htaken)
  exact ⟨rfl, rfl⟩

theorem Makes.unique {i : Nat} {token token' : String} (h : Makes s i token)
    (h' : Makes s i token') : token = token' := by
  obtain ⟨τ, hτ, _, hx, rfl⟩ := h
  obtain ⟨τ', hτ', _, hx', rfl⟩ := h'
  rw [hτ] at hτ'
  obtain rfl := Option.some.inj hτ'
  have hlawful := hs τ (List.mem_of_getElem? hτ)
  obtain ⟨x, _, after, hsaid, _⟩ := made_third hlawful hx
  obtain ⟨x', _, after', hsaid', _⟩ := made_third hlawful hx'
  rw [hsaid] at hsaid'
  cases hsaid'
  rfl

/-- Who makes a token has taken something, for its own client. -/
theorem Makes.takes {i : Nat} {token : String} (h : Makes s i token) :
    ∃ τ item doc, s.threads[i]? = some τ ∧ Takes s i item doc ∧
      τ.request.client = some doc.clientId := by
  obtain ⟨τ, hτ, _, hx, rfl⟩ := h
  obtain ⟨x, doc, after, hsaid, ⟨item, htaken⟩, hclient⟩ :=
    made_third (hs τ (List.mem_of_getElem? hτ)) hx
  refine ⟨τ, item, doc, hτ, ⟨τ, hτ, x, ?_, htaken⟩, hclient⟩
  rw [hsaid]
  exact List.mem_cons_self

end Laws

/-! ## What an operation does -/

def Item.id : Item → String
  | .code id         => id
  | .refreshToken id => id

/-- What is there for an item: for whom it is. -/
def Store.get (store : Store) : Item → Option RefreshToken
  | .code code          => (store.codes code).map fun doc =>
      { clientId := doc.clientId, userId := doc.userId }
  | .refreshToken token => store.refreshTokens token

/-- An answer and the store after it: what is taken was there and is gone, what is new
    was inserted, and ids are given out once. -/
structure Done (store : Store) (x : Exchange) (store' : Store) : Prop where
  took   : ∀ item doc, taken x = some (item, doc) → store.get item = some doc ∧
    store'.get item = none
  added  : ∀ item doc, store'.get item = some doc → store.get item = some doc ∨
    (∃ token, item = .refreshToken token ∧ x.1 = .insertRefreshToken token doc) ∨
    (item.id ∉ store.issued ∧ item.id ∈ store'.issued ∧ ∃ code, item = .code code)
  issued : ∀ id ∈ store.issued, id ∈ store'.issued
  made   : ∀ token, x = ⟨.generateId, token⟩ → token ∉ store.issued ∧ token ∈ store'.issued

theorem get_put_code {store : Store} {code : String} {doc : Option AuthorizationCode} {item : Item}
    (hitem : item ≠ .code code) :
      { store with codes := put store.codes code doc }.get item = store.get item := by
  cases item with
  | code code' =>
      have hne : code' ≠ code := fun h => hitem (h ▸ rfl)
      simp only [Store.get, put_of_ne _ hne]
  | refreshToken token => rfl

theorem get_put_refreshToken {store : Store} {token : String} {doc : Option RefreshToken}
    {item : Item}
    (hitem : item ≠ .refreshToken token) :
    { store with refreshTokens := put store.refreshTokens token doc }.get item =
      store.get item := by
  cases item with
  | code code => rfl
  | refreshToken token' =>
      have hne : token' ≠ token := fun h => hitem (congrArg Item.refreshToken h)
      exact put_of_ne _ hne _

/-- An operation that takes nothing and makes no id. -/
theorem done_of_plain {store store' : Store} {x : Exchange} (hplain : taken x = none)
    (hmade : x.1 ≠ .generateId) (hissued : store'.issued = store.issued)
    (hget : ∀ item doc, store'.get item = some doc → store.get item = some doc) :
      Done store x store' := by
  refine ⟨?_, fun item doc h => Or.inl (hget item doc h), ?_, ?_⟩
  · intro item doc h
    rw [hplain] at h
    cases h
  · intro id hid
    rw [hissued]
    exact hid
  · rintro token rfl
    exact absurd rfl hmade

theorem done_same {store : Store} {x : Exchange} (hplain : taken x = none)
    (hmade : x.1 ≠ .generateId) :
    Done store x store :=
  done_of_plain hplain hmade rfl fun _ _ h => h

theorem get_removed_code {store : Store} {code : String} :
    { store with codes := put store.codes code none }.get (.code code) = none := by
  simp only [Store.get, put_self, Option.map_none]

theorem get_removed_refreshToken {store : Store} {token : String} :
    { store with refreshTokens := put store.refreshTokens token none }.get (.refreshToken token) =
      none :=
  put_self _ _ _

/-- What is left after a removal was there before. -/
theorem get_of_removed_code {store : Store} {code : String} {item : Item} {doc : RefreshToken}
    (h : { store with codes := put store.codes code none }.get item = some doc) :
    store.get item = some doc := by
  by_cases hitem : item = .code code
  · rw [hitem, get_removed_code] at h
    cases h
  · rwa [get_put_code hitem] at h

theorem get_of_removed_refreshToken {store : Store} {token : String} {item : Item}
    {doc : RefreshToken}
    (h : { store with refreshTokens := put store.refreshTokens token none }.get item = some doc) :
    store.get item = some doc := by
  by_cases hitem : item = .refreshToken token
  · rw [hitem, get_removed_refreshToken] at h
    cases h
  · rwa [get_put_refreshToken hitem] at h

/-- A code is taken out once. -/
theorem done_consumeAuthorizationCode {store store' : Store} {choice : Choice} {code : String}
    {a : Answer (.consumeAuthorizationCode code)}
      (h : exec store choice (.consumeAuthorizationCode code) = some (a, store')) :
    Done store ⟨.consumeAuthorizationCode code, a⟩ store' := by
  obtain ⟨outcome, id⟩ := choice
  cases outcome with
  | done =>
      cases h
      refine ⟨?_, fun item doc h => Or.inl (get_of_removed_code h), fun _ hid =>
        hid, by rintro token ⟨⟩⟩
      intro item doc htaken
      cases hcode : store.codes code with
      | none =>
          rw [hcode] at htaken
          cases htaken
      | some found =>
          rw [hcode] at htaken
          cases htaken
          refine ⟨?_, get_removed_code⟩
          rw [Store.get, hcode]
          rfl
  | failed =>
      cases h
      exact done_same rfl (by rintro ⟨⟩)
  | lost =>
      cases h
      exact done_of_plain rfl (by rintro ⟨⟩) rfl fun _ _ h => get_of_removed_code h

/-- A code is put where none is. -/
theorem done_insertAuthorizationCode {store store' : Store} {choice : Choice} {code : String}
    {doc : AuthorizationCode}
    {a : Answer (.insertAuthorizationCode code doc)}
      (h : exec store choice (.insertAuthorizationCode code doc) = some (a, store')) :
    Done store ⟨.insertAuthorizationCode code doc, a⟩ store' := by
  obtain ⟨outcome, id⟩ := choice
  rw [exec] at h
  split at h
  · cases h
  · rename_i hfresh
    have hdone : ∀ a : Except String Unit, Done store ⟨.insertAuthorizationCode code doc, a⟩
        { store with codes := put store.codes code (some doc), issued := code ::
          store.issued } := by
      intro a
      refine ⟨by rintro item doc ⟨⟩, ?_, fun _ hid => List.mem_cons_of_mem _ hid, by rintro token ⟨⟩⟩
      intro item found hget
      by_cases hitem : item = .code code
      · rw [hitem]
        exact Or.inr (Or.inr ⟨hfresh, List.mem_cons_self, code, rfl⟩)
      · exact Or.inl ((get_put_code hitem).symm.trans hget)
    cases outcome with
    | done =>
        cases h
        exact hdone _
    | failed =>
        cases h
        exact done_same rfl (by rintro ⟨⟩)
    | lost =>
        cases h
        exact hdone _

/-- So is a refresh token. -/
theorem done_insertRefreshToken {store store' : Store} {choice : Choice} {token : String}
    {doc : RefreshToken}
    {a : Answer (.insertRefreshToken token doc)}
      (h : exec store choice (.insertRefreshToken token doc) = some (a, store')) :
    Done store ⟨.insertRefreshToken token doc, a⟩ store' := by
  obtain ⟨outcome, id⟩ := choice
  rw [exec] at h
  split at h
  · cases h
    exact done_same rfl (by rintro ⟨⟩)
  · have hdone : ∀ a : Except String Unit, Done store ⟨.insertRefreshToken token doc, a⟩
        { store with refreshTokens := put store.refreshTokens token (some doc) } := by
      intro a
      refine ⟨by rintro item doc ⟨⟩, ?_, fun _ hid => hid, by rintro token ⟨⟩⟩
      intro item found hget
      by_cases hitem : item = .refreshToken token
      · rw [hitem] at hget ⊢
        have hfound : some doc = some found := (put_self _ _ _).symm.trans hget
        obtain rfl := Option.some.inj hfound
        exact Or.inr (Or.inl ⟨token, rfl, rfl⟩)
      · exact Or.inl ((get_put_refreshToken hitem).symm.trans hget)
    cases outcome with
    | done =>
        cases h
        exact hdone _
    | failed =>
        cases h
        exact done_same rfl (by rintro ⟨⟩)
    | lost =>
        cases h
        exact hdone _

/-- A refresh token is taken out by its client. -/
theorem done_deleteRefreshToken {store store' : Store} {choice : Choice} {token clientId : String}
    {a : Answer (.deleteRefreshToken token clientId)}
      (h : exec store choice (.deleteRefreshToken token clientId) = some (a, store')) :
    Done store ⟨.deleteRefreshToken token clientId, a⟩ store' := by
  obtain ⟨outcome, id⟩ := choice
  rw [exec] at h
  split at h
  · cases outcome <;> cases h <;> exact done_same rfl (by rintro ⟨⟩)
  · rename_i doc hdoc
    split at h
    · cases outcome with
      | done =>
          cases h
          refine ⟨?_, fun item doc h => Or.inl (get_of_removed_refreshToken h), fun _ hid => hid,
            by rintro token ⟨⟩⟩
          rintro item found htaken
          cases htaken
          exact ⟨hdoc, get_removed_refreshToken⟩
      | failed =>
          cases h
          exact done_same rfl (by rintro ⟨⟩)
      | lost =>
          cases h
          exact done_of_plain rfl (by rintro ⟨⟩) rfl fun _ _ h => get_of_removed_refreshToken h
    · cases outcome <;> cases h <;> exact done_same rfl (by rintro ⟨⟩)

theorem exec_done {store store' : Store} {choice : Choice} {q : Query} {a : Answer q}
    (h : exec store choice q = some (a, store')) : Done store ⟨q, a⟩ store' := by
  obtain ⟨outcome, id⟩ := choice
  cases q with
  | getAuthorizationCode code =>
      cases outcome <;> cases h <;> exact done_same rfl (by rintro ⟨⟩)
  | consumeAuthorizationCode code => exact done_consumeAuthorizationCode h
  | insertAuthorizationCode code doc => exact done_insertAuthorizationCode h
  | ensureIndexes =>
      cases h
      exact done_same rfl (by rintro ⟨⟩)
  | generateId =>
      rw [exec] at h
      split at h
      · cases h
      · rename_i hfresh
        cases h
        refine ⟨by rintro item doc ⟨⟩, fun _ _ h => Or.inl h, fun _ hid => List.mem_cons_of_mem _ hid, ?_⟩
        rintro token heq
        cases heq
        exact ⟨hfresh, List.mem_cons_self⟩
  | insertRefreshToken token doc => exact done_insertRefreshToken h
  | deleteRefreshToken token clientId => exact done_deleteRefreshToken h

/-! ## What all requests keep -/

/-- What is there, or was there and has been taken. -/
def Known (s : State) (item : Item) (doc : RefreshToken) : Prop :=
  s.store.get item = some doc ∨ ∃ i, Takes s i item doc

structure Inv (s : State) : Prop where
  issued : ∀ item doc, Known s item doc → item.id ∈ s.store.issued
  gone   : ∀ i item doc, Takes s i item doc → s.store.get item = none
  takers : ∀ i j item doc doc', Takes s i item doc → Takes s j item doc' → i = j
  made   : ∀ i token, Makes s i token → token ∈ s.store.issued
  makers : ∀ i j token, Makes s i token → Makes s j token → i = j
  /-- a token that a request has made comes from that request only -/
  placed : ∀ token doc, Known s (.refreshToken token) doc → ∀ i, Makes s i token →
    Inserts s i token doc

/-- The ids of all that is there have been given out. -/
def Store.Issued (store : Store) : Prop :=
  ∀ item doc, store.get item = some doc → item.id ∈ store.issued

theorem not_says_nil {store : Store} {i : Nat} {P : Exchange → Prop} :
    ¬ Says ({ store := store } : State) i P := by
  rintro ⟨τ, hτ, _⟩
  cases hτ

theorem inv_begin {store : Store} (hstore : store.Issued) : Inv { store := store } := by
  refine ⟨?_, ?_, ?_, ?_, ?_, ?_⟩
  · rintro item doc (hget | ⟨i, htakes⟩)
    · exact hstore item doc hget
    · exact absurd htakes not_says_nil
  · exact fun _ _ _ htakes => absurd htakes not_says_nil
  · exact fun _ _ _ _ _ htakes => absurd htakes not_says_nil
  · exact fun _ _ hmakes => absurd hmakes not_says_nil
  · exact fun _ _ _ hmakes => absurd hmakes not_says_nil
  · exact fun _ _ _ _ hmakes => absurd hmakes not_says_nil

/-- A token that is sent has been made by its thread, which has not sent one before. -/
theorem sends_once {s : State} (hs : AllLawful law s) {i : Nat} {τ : Thread}
    (hτ : s.threads[i]? = some τ) {token : String} {doc : RefreshToken}
    {next : Answer (.insertRefreshToken token doc) → OAuth Response}
    (hprogram : τ.program = .ask (.insertRefreshToken token doc) next) :
    Makes s i token ∧ ∀ token' doc', ¬ Inserts s i token' doc' := by
  obtain ⟨x, hsaid, ⟨item, htaken⟩, _⟩ :
      ∃ x, τ.said = [x, ⟨.ensureIndexes, ()⟩, ⟨.generateId, token⟩] ∧ Took τ.request x doc :=
    (hs τ (List.mem_of_getElem? hτ)).asks hprogram
  refine ⟨⟨τ, hτ, ⟨.generateId, token⟩, ?_, rfl⟩, ?_⟩
  · rw [hsaid]
    exact List.mem_cons_of_mem _ (List.mem_cons_of_mem _ (List.mem_singleton.mpr rfl))
  · rintro token' doc' ⟨τ', hτ', y, hy, hinserts⟩
    rw [hτ] at hτ'
    obtain rfl := Option.some.inj hτ'
    rw [hsaid] at hy
    rcases List.mem_cons.mp hy with rfl | hy
    · obtain ⟨q, a⟩ := y
      cases hinserts
      cases htaken
    · rcases List.mem_cons.mp hy with rfl | hy
      · cases hinserts
      · rw [List.mem_singleton.mp hy] at hinserts
        cases hinserts

/-- What is known after an operation was known before, was sent by it, or is a new code. -/
theorem known_resume {s : State} {i : Nat} {τ : Thread} (hτ : s.threads[i]? = some τ)
    {store' : Store} {q : Query} {a : Answer q} {next : OAuth Response}
    (hdone : Done s.store ⟨q, a⟩ store') {item : Item} {doc : RefreshToken}
    (hknown : Known { store := store', threads := s.threads.set i (τ.heard q a next) } item doc) :
    Known s item doc ∨ (∃ token, item = .refreshToken token ∧ q = .insertRefreshToken token doc) ∨
      (item.id ∉ s.store.issued ∧ item.id ∈ store'.issued ∧ ∃ code, item = .code code) := by
  rcases hknown with hget | ⟨j, htakes⟩
  · exact (hdone.added item doc hget).imp_left Or.inl
  · rcases (says_resume hτ).mp htakes with hold | ⟨_, hnew⟩
    · exact Or.inl (Or.inr ⟨j, hold⟩)
    · exact Or.inl (Or.inl (hdone.took item doc hnew).1)

theorem inv_resume {s : State} (hs : AllLawful law s) (hI : Inv s) {i : Nat} {τ : Thread}
    (hτ : s.threads[i]? = some τ) {q : Query} {next : Answer q → OAuth Response}
    (hprogram : τ.program = .ask q next) {a : Answer q} {store' : Store}
    (hdone : Done s.store ⟨q, a⟩ store') :
    Inv { store := store', threads := s.threads.set i (τ.heard q a (next a)) } := by
  -- what is sent was made by this thread, and was not known
  have hsends : ∀ token doc, q = .insertRefreshToken token doc →
      Makes s i token ∧ ∀ doc', ¬ Known s (.refreshToken token) doc' := by
    rintro token doc rfl
    obtain ⟨hmakes, hnot⟩ := sends_once hs hτ hprogram
    exact ⟨hmakes, fun doc' hknown => hnot token doc' (hI.placed token doc' hknown i hmakes)⟩
  refine ⟨?_, ?_, ?_, ?_, ?_, ?_⟩
  · intro item doc hknown
    rcases known_resume hτ hdone hknown with hold | ⟨token, rfl, hq⟩ | ⟨_, hnew, _⟩
    · exact hdone.issued _ (hI.issued item doc hold)
    · exact hdone.issued _ (hI.made i token (hsends token doc hq).1)
    · exact hnew
  · intro j item doc htakes
    rcases (says_resume hτ).mp htakes with hold | ⟨_, hnew⟩
    · -- what was taken before does not come back
      rw [Option.eq_none_iff_forall_ne_some]
      intro found hget
      rcases hdone.added item found hget with hthere | ⟨token, rfl, hq⟩ | ⟨hfresh, _⟩
      · rw [hI.gone j item doc hold] at hthere
        cases hthere
      · exact (hsends token found hq).2 doc (Or.inr ⟨j, hold⟩)
      · exact hfresh (hI.issued item doc (Or.inr ⟨j, hold⟩))
    · exact (hdone.took item doc hnew).2
  · intro j k item doc doc' hj hk
    rcases (says_resume hτ).mp hj with hjold | ⟨hji, hjnew⟩
    · rcases (says_resume hτ).mp hk with hkold | ⟨_, hknew⟩
      · exact hI.takers j k item doc doc' hjold hkold
      · have hthere := (hdone.took item doc' hknew).1
        rw [hI.gone j item doc hjold] at hthere
        cases hthere
    · rcases (says_resume hτ).mp hk with hkold | ⟨hki, _⟩
      · have hthere := (hdone.took item doc hjnew).1
        rw [hI.gone k item doc' hkold] at hthere
        cases hthere
      · rw [hji, hki]
  · intro j token hmakes
    rcases (says_resume hτ).mp hmakes with hold | ⟨_, hnew⟩
    · exact hdone.issued _ (hI.made j token hold)
    · exact (hdone.made token hnew).2
  · intro j k token hj hk
    rcases (says_resume hτ).mp hj with hjold | ⟨hji, hjnew⟩
    · rcases (says_resume hτ).mp hk with hkold | ⟨_, hknew⟩
      · exact hI.makers j k token hjold hkold
      · exact absurd (hI.made j token hjold) (hdone.made token hknew).1
    · rcases (says_resume hτ).mp hk with hkold | ⟨hki, _⟩
      · exact absurd (hI.made k token hkold) (hdone.made token hjnew).1
      · rw [hji, hki]
  · intro token doc hknown j hmakes
    refine (says_resume hτ).mpr ?_
    rcases (says_resume hτ).mp hmakes with hold | ⟨rfl, hnew⟩
    · rcases known_resume hτ hdone hknown with hknown | ⟨token', heq, hq⟩ | ⟨_, _, code, heq⟩
      · exact Or.inl (hI.placed token doc hknown j hold)
      · cases heq
        exact Or.inr ⟨hI.makers j i token hold (hsends token doc hq).1, hq⟩
      · cases heq
    · -- an id that was just made is not known
      have hfresh := (hdone.made token hnew).1
      rcases known_resume hτ hdone hknown with hknown | ⟨token', heq, hq⟩ | ⟨_, _, code, heq⟩
      · exact absurd (hI.issued (.refreshToken token) doc hknown) hfresh
      · cases heq
        exact absurd (hI.made j token (hsends token doc hq).1) hfresh
      · cases heq

theorem kept : Kept system law Inv := by
  refine ⟨?_, ?_, ?_⟩
  · intro s r hI _
    have hknown : ∀ {item doc}, Known { s with threads := s.threads ++
        [{ request := r, program := system.program r }] } item doc → Known s item doc := by
      rintro item doc (hget | ⟨i, htakes⟩)
      · exact Or.inl hget
      · exact Or.inr ⟨i, says_call.mp htakes⟩
    refine ⟨fun item doc h => hI.issued item doc (hknown h), ?_, ?_, ?_, ?_, ?_⟩
    · exact fun i item doc h => hI.gone i item doc (says_call.mp h)
    · exact fun i j item doc doc' h h' =>
        hI.takers i j item doc doc' (says_call.mp h) (says_call.mp h')
    · exact fun i token h => hI.made i token (says_call.mp h)
    · exact fun i j token h h' => hI.makers i j token (says_call.mp h) (says_call.mp h')
    · exact fun token doc h i h' =>
        says_call.mpr (hI.placed token doc (hknown h) i (says_call.mp h'))
  · intro s i τ q next choice a store' hI hs hτ hprogram hexec
    exact inv_resume hs hI hτ hprogram (exec_done hexec)
  · intro s item store' hI _ hexpire
    -- what expires is only removed
    have hremoved : store'.issued = s.store.issued ∧
        ∀ item doc, store'.get item = some doc → s.store.get item = some doc := by
      cases item with
      | code code =>
          cases hexpire
          exact ⟨rfl, fun _ _ h => get_of_removed_code h⟩
      | refreshToken token =>
          cases hexpire
          exact ⟨rfl, fun _ _ h => get_of_removed_refreshToken h⟩
    obtain ⟨hissued, hget⟩ := hremoved
    have hknown : ∀ {item doc}, Known { s with store := store' } item doc → Known s item doc :=
      fun h => h.imp_left (hget _ _)
    refine ⟨?_, ?_, hI.takers, ?_, hI.makers, ?_⟩
    · intro item doc h
      show item.id ∈ store'.issued
      rw [hissued]
      exact hI.issued item doc (hknown h)
    · intro i item doc h
      rw [Option.eq_none_iff_forall_ne_some]
      intro found hfound
      have hnone := hI.gone i item doc h
      rw [hget item found hfound] at hnone
      cases hnone
    · intro i token h
      show token ∈ store'.issued
      rw [hissued]
      exact hI.made i token h
    · exact fun token doc h => hI.placed token doc (hknown h)

/-! ## Lineage -/

/-- A request has taken the first item and made the second one for it. -/
def Succeeds (s : State) (item item' : Item) : Prop :=
  ∃ i doc token, Takes s i item doc ∧ Makes s i token ∧ item' = .refreshToken token

/-- The second item descends from the first one. -/
abbrev Descends (s : State) : Item → Item → Prop := Relation.ReflTransGen (Succeeds s)

/-- What holds of every authorization code. -/
structure LineageSafe (s : State) (code : String) : Prop where
  /-- at most one refresh token that descends from it can be used -/
  usable    : ∀ token token', Descends s (.code code) (.refreshToken token) →
    Descends s (.code code) (.refreshToken token') →
    (s.store.refreshTokens token).isSome = true → (s.store.refreshTokens token').isSome = true →
    token = token'
  /-- one request at most exchanges it -/
  exchanged : ∀ i j doc doc', Takes s i (.code code) doc → Takes s j (.code code) doc' → i = j
  /-- who takes something of its lineage and makes a token for it, or gets tokens, is the
      client that the code was issued for -/
  client    : ∀ i doc, Takes s i (.code code) doc → ∀ j τ item doc', s.threads[j]? = some τ →
    Takes s j item doc' → Descends s (.code code) item →
    ((∃ token, Makes s j token) → τ.request.client = some doc.clientId) ∧
    ∀ t, τ.program = .returned (.tokens t) →
      τ.request.client = some doc.clientId ∧ t.accessToken.cid = doc.clientId

section Lineage

variable {s : State} (hs : AllLawful law s) (hI : Inv s)

include hs hI

theorem succeeds_unique : Relator.RightUnique (Succeeds s) := by
  rintro item item₁ item₂ ⟨i, doc, token, htakes, hmakes, rfl⟩ ⟨j, doc', token', htakes', hmakes',
    rfl⟩
  obtain rfl := hI.takers i j item doc doc' htakes htakes'
  rw [hmakes.unique hs hmakes']

omit hs in
/-- What is still there has no successor. -/
theorem eq_of_descends {item item' : Item} {doc : RefreshToken} (hget : s.store.get item = some doc)
    (h : Descends s item item') : item = item' := by
  rcases h.cases_head with heq | ⟨_, ⟨i, doc', token, htakes, _⟩, _⟩
  · exact heq
  · rw [hI.gone i item doc' htakes] at hget
    cases hget

/-- The document of a token that a thread has made is the one that the thread has sent,
    for the client of what it took. -/
theorem client_of_made {i : Nat} {token : String} {doc doc' : RefreshToken} {item : Item}
    (hmakes : Makes s i token) (htakes : Takes s i item doc)
    (hknown : Known s (.refreshToken token) doc') : doc'.clientId = doc.clientId := by
  obtain ⟨τ, hτ, x, hx, hinserts⟩ := hI.placed token doc' hknown i hmakes
  have hlawful := hs τ (List.mem_of_getElem? hτ)
  obtain ⟨before, after, hsaid, hasks⟩ := hlawful.said.split hx
  rw [hinserts] at hasks
  obtain ⟨y, hbefore, ⟨item', htaken⟩, _⟩ :
      ∃ y, before = [y, ⟨.ensureIndexes, ()⟩, ⟨.generateId, token⟩] ∧ Took τ.request y doc' := hasks
  have htakes' : Takes s i item' doc' := by
    refine ⟨τ, hτ, y, ?_, htaken⟩
    rw [hsaid, hbefore]
    exact List.mem_cons_self
  rw [(htakes.unique hs htakes').2]

/-- All documents of a lineage are for one client. -/
theorem client_of_descends {item item' : Item} {doc doc' : RefreshToken} {i j : Nat}
    (htakes : Takes s i item doc) (htakes' : Takes s j item' doc') (h : Descends s item item') :
    doc'.clientId = doc.clientId := by
  induction h generalizing j doc' with
  | refl =>
      obtain rfl := hI.takers i j item doc doc' htakes htakes'
      rw [(htakes.unique hs htakes').2]
  | tail _ hlast ih =>
      obtain ⟨k, doc'', token, hk, hmakes, rfl⟩ := hlast
      rw [client_of_made hs hI hmakes hk (Or.inr ⟨j, htakes'⟩)]
      exact ih hk

theorem lineageSafe (code : String) : LineageSafe s code := by
  refine ⟨?_, ?_, ?_⟩
  · intro token token' h h' hthere hthere'
    obtain ⟨doc, hdoc⟩ := Option.isSome_iff_exists.mp hthere
    obtain ⟨doc', hdoc'⟩ := Option.isSome_iff_exists.mp hthere'
    -- one of the two descends from the other
    rcases Relation.ReflTransGen.total_of_right_unique (succeeds_unique hs hI) h h' with hle | hle
    · cases eq_of_descends hI (show s.store.get (.refreshToken token) = some doc from hdoc) hle
      rfl
    · cases eq_of_descends hI (show s.store.get (.refreshToken token') = some doc' from hdoc') hle
      rfl
  · exact fun i j doc doc' => hI.takers i j (.code code) doc doc'
  · intro i doc htakes j τ item doc' hτ htakes' hdescends
    have hclient := client_of_descends hs hI htakes htakes' hdescends
    have hlawful := hs τ (List.mem_of_getElem? hτ)
    constructor
    · rintro ⟨token, hmakes⟩
      obtain ⟨τ', item'', doc'', hτ', htakes'', hrequest⟩ := hmakes.takes hs
      rw [hτ] at hτ'
      obtain rfl := Option.some.inj hτ'
      rw [hrequest, ← hclient, (htakes'.unique hs htakes'').2]
    · intro t hprogram
      obtain ⟨x, doc'', inserted, hsaid, ⟨⟨item'', htaken⟩, hrequest⟩, haccess⟩ :
          ∃ x doc inserted, τ.said =
            [x, ⟨.ensureIndexes, ()⟩, ⟨.generateId, t.refreshToken⟩, inserted] ∧
            Took τ.request x doc ∧ t.accessToken = signAccessToken doc.userId doc.clientId :=
        hlawful.result hprogram
      have htakes'' : Takes s j item'' doc'' := by
        refine ⟨τ, hτ, x, ?_, htaken⟩
        rw [hsaid]
        exact List.mem_cons_self
      rw [hrequest, haccess, ← hclient, (htakes'.unique hs htakes'').2]
      exact ⟨rfl, rfl⟩

end Lineage

/-- **Lineage.** Whatever the collections hold in the beginning, every code is safe in
    every state that requests can reach. -/
theorem lineage_safe {store : Store} (hstore : store.Issued) {s : State}
    (hreach : Reachable system { store := store } s) (code : String) : LineageSafe s code := by
  obtain ⟨hs, hI⟩ := run_invariant wp_program kept (allLawful_nil store) (inv_begin hstore) hreach
  exact lineageSafe hs hI code

/-- A code of the client `app`. -/
def withCode : Store where
  codes  := put (fun _ => none) "code"
    (some { clientId := "app", codeChallenge := "", userId := "user" })
  issued := ["code"]

theorem withCode_issued : withCode.Issued := by
  intro item doc hget
  cases item with
  | code code =>
      by_cases hcode : code = "code"
      · rw [hcode]
        exact List.mem_singleton.mpr rfl
      · have hnone : withCode.codes code = none := if_neg hcode
        simp only [Store.get, hnone, Option.map_none] at hget
        cases hget
  | refreshToken token => cases hget

/-- The client exchanges it, and the token it gets once more. -/
def exchangeTwice : List (Event Request Item Choice) :=
  [.call (.exchangeAuthorizationCode (some "app") "code"), .resume 0 {}, .resume 0 {},
   .resume 0 { id := "first" }, .resume 0 {},
   .call (.exchangeRefreshToken (some "app") "first"), .resume 1 {}, .resume 1 {},
   .resume 1 { id := "second" }, .resume 1 {}]

theorem lineage_safe_exchanged : ∃ s, Reachable system { store := withCode } s ∧
    (s.store.refreshTokens "second").isSome = true ∧ LineageSafe s "code" := by
  refine ⟨_, ⟨exchangeTwice, rfl⟩, rfl, ?_⟩
  exact lineage_safe withCode_issued ⟨exchangeTwice, rfl⟩ "code"

end McpOAuth
