import RecordGateway.Proofs.Http.Serving

/-!
# The endpoint of a gateway

A route with a gap accepts several paths (`Route.matchesParts_fill`), and one without gaps accepts
what is left of its text when doubled braces are taken together. So a configured path is an endpoint
of its own, and the only one, just if it has no braces and no segments that start with a colon or an
asterisk (`Gateway.exists_endpointAt_iff`).
-/

namespace RecordGateway

def RoutePart.isGap : RoutePart → Bool
  | .text _ => false
  | .segment => true
  | .rest => true

namespace Route

/-! ## Gaps -/

/-- The characters of some parts, with the same filling in each gap. -/
def fill (filling : List Char) : List RoutePart → List Char
  | [] => []
  | .text t :: ps => t ++ fill filling ps
  | .segment :: ps => filling ++ fill filling ps
  | .rest :: ps => filling ++ fill filling ps

/-- Each gap adds its filling. -/
theorem length_fill (filling : List Char) (ps : List RoutePart) :
    (fill filling ps).length =
      (fill [] ps).length + filling.length * ps.countP RoutePart.isGap := by
  induction ps with
  | nil => rfl
  | cons p ps ih =>
    cases p <;> simp only [fill, List.length_append, List.countP_cons, RoutePart.isGap, ih,
      List.length_nil, Nat.mul_add] <;> simp <;> omega

/-- A gap for a segment is followed by a slash or the end, and a gap for the rest by the end. -/
def Spaced : List RoutePart → Prop
  | [] => True
  | .text _ :: ps => Spaced ps
  | .segment :: ps => Spaced ps ∧ (ps = [] ∨ ∃ t rest, ps = .text ('/' :: t) :: rest)
  | .rest :: ps => ps = []

/-- Parts accept what fills their gaps. -/
theorem matchesParts_fill {ps : List RoutePart} (h : Spaced ps) {filling : List Char}
    (hne : filling ≠ []) (hslash : '/' ∉ filling) : matchesParts ps (fill filling ps) = true := by
  induction ps with
  | nil => rfl
  | cons p ps ih =>
    cases p with
    | text t => simpa [matchesParts, fill] using ih h
    | segment =>
      obtain ⟨hps, hnext⟩ := h
      have htake : (filling ++ fill filling ps).takeWhile (· != '/') = filling := by
        have hall : ∀ c ∈ filling, (c != '/') = true := fun c hc => by
          simp only [bne_iff_ne]
          rintro rfl
          exact hslash hc
        rw [List.takeWhile_append_of_pos hall]
        rcases hnext with rfl | ⟨t, rest, rfl⟩ <;> simp [fill]
      simp [matchesParts, fill, htake, hne, ih hps]
    | rest => simp [matchesParts, fill, hne]

/-- Parts without gaps accept their text only. -/
theorem eq_fill_of_matchesParts {ps : List RoutePart} (h : ps.countP RoutePart.isGap = 0)
    {cs : List Char} (hm : matchesParts ps cs = true) : cs = fill [] ps := by
  induction ps generalizing cs with
  | nil => exact List.isEmpty_iff.1 hm
  | cons p ps ih =>
    cases p with
    | text t =>
      simp only [matchesParts, Bool.and_eq_true, List.isPrefixOf_iff_prefix] at hm
      obtain ⟨⟨rest, rfl⟩, hm⟩ := hm
      rw [List.drop_left] at hm
      rw [fill, ← ih (by simpa [RoutePart.isGap] using h) hm]
    | segment => simp [RoutePart.isGap] at h
    | rest => simp [RoutePart.isGap] at h

/-! ## Reading -/

/-- What follows a gap is the end or, after a gap for a segment, a slash. -/
theorem gap?_eq_some {cs after : List RouteChar} {takesRest : Bool}
    (h : gap? cs = some (takesRest, after)) :
    after = [] ∨ takesRest = false ∧ ∃ c rest, after = c :: rest ∧ c.char = '/' := by
  cases cs with
  | nil => cases h
  | cons first cs =>
    simp only [gap?] at h
    split at h
    · cases h
    · split at h
      · cases h
      · split at h
        · cases h
        · cases h
          exact .inl rfl
        · rename_i c rest _
          split at h
          · rename_i hc
            cases h
            exact .inr ⟨rfl, _, _, rfl, by simp_all⟩
          · cases h

/-- The characters in front of the first brace that is not doubled. -/
def front (cs : List RouteChar) : List RouteChar := cs.takeWhile fun c => !isOpen c && !isClose c

/-- Parts are read as a text, and a gap with more parts if there is a brace that is not doubled. -/
theorem partsOf?_eq_some {fuel : Nat} {cs : List RouteChar} {ps : List RoutePart}
    (h : partsOf? fuel cs = some ps) :
    ∃ tail, ps = (if (front cs).isEmpty then [] else [.text ((front cs).map (·.char))]) ++ tail ∧
      (tail = [] ∧ front cs = cs ∨
        ∃ rest opened takesRest after qs, fuel = rest + 1 ∧
          gap? opened = some (takesRest, after) ∧ partsOf? rest after = some qs ∧
          tail = (if takesRest then .rest else .segment) :: qs) := by
  cases fuel with
  | zero =>
    cases cs with
    | nil =>
      cases h
      exact ⟨[], rfl, .inl ⟨rfl, rfl⟩⟩
    | cons c cs => cases h
  | succ fuel =>
    simp only [partsOf?] at h
    split at h
    · rename_i hdrop
      cases h
      refine ⟨[], (List.append_nil _).symm, .inl ⟨rfl, ?_⟩⟩
      exact (List.takeWhile_prefix _).eq_of_length_le (List.drop_eq_nil_iff.1 hdrop)
    · split at h
      · split at h
        · rename_i hgap
          obtain ⟨qs, hqs, rfl⟩ := Option.map_eq_some_iff.1 h
          exact ⟨_, rfl, .inr ⟨_, _, _, _, qs, rfl, hgap, hqs, rfl⟩⟩
        · cases h
      · cases h

/-- The parts of characters that start with a slash start with a text that does. -/
theorem partsOf?_slash {fuel : Nat} {c : RouteChar} {cs : List RouteChar} {ps : List RoutePart}
    (hc : c.char = '/') (h : partsOf? fuel (c :: cs) = some ps) :
    ∃ t rest, ps = .text ('/' :: t) :: rest := by
  obtain ⟨tail, rfl, -⟩ := partsOf?_eq_some h
  have hfront : front (c :: cs) = c :: front cs := by
    simp [front, isOpen, isClose, hc]
  exact ⟨_, _, by rw [hfront, List.map_cons, hc]; rfl⟩

/-- Parts are read with the gaps apart. -/
theorem spaced_of_partsOf? {fuel : Nat} {cs : List RouteChar} {ps : List RoutePart}
    (h : partsOf? fuel cs = some ps) : Spaced ps := by
  induction fuel generalizing cs ps with
  | zero =>
    obtain ⟨tail, rfl, ⟨rfl, -⟩ | ⟨_, _, _, _, _, hfuel, -⟩⟩ := partsOf?_eq_some h
    · split <;> trivial
    · cases hfuel
  | succ fuel ih =>
    obtain ⟨tail, rfl, hcase⟩ := partsOf?_eq_some h
    suffices Spaced tail by split <;> exact this
    rcases hcase with ⟨rfl, -⟩ | ⟨_, opened, takesRest, after, qs, hfuel, hgap, hqs, rfl⟩
    · trivial
    · cases hfuel
      rcases gap?_eq_some hgap with rfl | ⟨rfl, c, cs, rfl, hc⟩
      · obtain rfl : qs = [] := by
          cases fuel <;> exact (Option.some.inj hqs).symm
        cases takesRest
        · exact ⟨trivial, .inl rfl⟩
        · rfl
      · exact ⟨ih hqs, .inr (partsOf?_slash hc hqs)⟩

/-- Parts without gaps are read where all braces are doubled, and have the characters as text. -/
theorem of_partsOf?_of_countP_eq_zero {fuel : Nat} {cs : List RouteChar} {ps : List RoutePart}
    (h : partsOf? fuel cs = some ps) (hps : ps.countP RoutePart.isGap = 0) :
    (∀ c ∈ cs, (!isOpen c && !isClose c) = true) ∧ fill [] ps = cs.map (·.char) := by
  obtain ⟨tail, rfl, ⟨rfl, hfront⟩ | ⟨_, _, takesRest, _, _, -, -, -, rfl⟩⟩ := partsOf?_eq_some h
  · refine ⟨List.takeWhile_eq_self_iff.1 hfront, ?_⟩
    rw [hfront, List.append_nil]
    cases cs with
    | nil => rfl
    | cons c cs => exact List.append_nil _
  · cases takesRest <;> simp [RoutePart.isGap] at hps

theorem length_unescape_le (cs : List Char) : (unescape cs).length ≤ cs.length := by
  fun_induction unescape cs <;> grind

/-- Only characters without braces keep their number when doubled braces are taken together and no
other braces are left. -/
theorem isBrace_eq_false_of_length_unescape {cs : List Char}
    (hplain : ∀ c ∈ unescape cs, (!isOpen c && !isClose c) = true)
    (hlen : (unescape cs).length = cs.length) : ∀ c ∈ cs, isBrace c = false := by
  fun_induction unescape cs with
  | case1 cs ih =>
    have := length_unescape_le cs
    simp only [List.length_cons] at hlen
    omega
  | case2 cs ih =>
    have := length_unescape_le cs
    simp only [List.length_cons] at hlen
    omega
  | case3 c cs _ _ ih =>
    obtain ⟨hc, hcs⟩ := List.forall_mem_cons.1 hplain
    refine List.forall_mem_cons.2 ⟨?_, ih hcs (by simpa using hlen)⟩
    simpa [isOpen, isClose, isBrace] using hc
  | case4 => exact fun c hc => absurd hc List.not_mem_nil

/-! ## Routes of one path -/

/-- A path is the only one that its route accepts just if it is one text. -/
theorem accepts_only_iff {path : String} (hr : path.toList.head? = some '/') :
    (∃ r, parse? path = some r ∧ ∀ other, r.accepts other = true ↔ other = path) ↔
      isText path = true := by
  refine ⟨fun ⟨r, hparse, honly⟩ => ?_, exists_parse?_of_isText hr⟩
  simp only [parse?] at hparse
  split at hparse
  · cases hparse
  rename_i hmarked
  obtain ⟨ps, hps, rfl⟩ := Option.map_eq_some_iff.1 hparse
  have hfill (filling : List Char) (hne : filling ≠ []) (hslash : '/' ∉ filling) :
      fill filling ps = path.toList := by
    have := (honly (String.ofList (fill filling ps))).1 (by
      rw [accepts, String.toList_ofList]
      exact matchesParts_fill (spaced_of_partsOf? hps) hne hslash)
    rw [← this, String.toList_ofList]
  -- fillings of different lengths give the same path
  have hgaps : ps.countP RoutePart.isGap = 0 := by
    have hshort := length_fill ['a'] ps
    have hlong := length_fill ['a', 'a'] ps
    rw [hfill _ (by decide) (by decide)] at hshort hlong
    simp only [List.length_cons, List.length_nil] at hshort hlong
    omega
  obtain ⟨hplain, htext⟩ := of_partsOf?_of_countP_eq_zero hps hgaps
  have hself := eq_fill_of_matchesParts hgaps ((honly path).2 rfl)
  have hlen : (unescape path.toList).length = path.toList.length := by
    have := congrArg List.length (hself.trans htext)
    rw [this, List.length_map]
  have hbrace := isBrace_eq_false_of_length_unescape hplain hlen
  simp only [Bool.or_eq_true, not_or, Bool.not_eq_true] at hmarked
  rw [isText, List.all_eq_true.2 fun c hc => by rw [hbrace c hc]; rfl, hmarked.2]
  rfl

end Route

namespace Gateway

/-- A gateway takes queries on one path, as it is written, and knows no other. -/
structure EndpointAt (g : Gateway) (path : String) : Prop where
  accepts : ∀ v, g.route.accepts v = true ↔ v = path
  served : ∀ q u, Uri.parse? q.target = some u → u.path = path →
    g.handle q =
      { g.serve u q.method q.body with
        response := { (g.serve u q.method q.body).response with requestId := some q.requestId } }
  elsewhere : ∀ q u, Uri.parse? q.target = some u → u.path ≠ path →
    (g.handle q).response.status = 404 ∧ (g.handle q).calls = []

theorem endpointAt_of_accepts {g : Gateway} {path : String}
    (h : ∀ v, g.route.accepts v = true ↔ v = path) : g.EndpointAt path where
  accepts := h
  served q u hu hpath := by simp [handle, hu, (h u.path).2 hpath]
  elsewhere q u hu hpath := by
    have hnot : g.route.accepts u.path = false := by
      simpa using mt (h u.path).1 hpath
    simp [handle, hu, hnot, HttpResponse.notFound]

/-- A sound configuration makes a gateway with its path as the endpoint just if the path has no
braces and no segments that start with a colon or an asterisk. -/
theorem exists_endpointAt_iff {c : Config} (hc : c.isSound = true) (r : Registry)
    (source : DataSource) (metered : Bool) :
    (∃ g, build? c r source metered = some g ∧ g.EndpointAt c.graphql.path) ↔
      Route.isText c.graphql.path = true := by
  rw [← Route.accepts_only_iff (Config.rooted_of_isSound hc)]
  constructor
  · rintro ⟨g, hg, hend⟩
    obtain ⟨route, hroute, rfl⟩ := Option.map_eq_some_iff.1 hg
    exact ⟨route, hroute, hend.accepts⟩
  · rintro ⟨route, hroute, honly⟩
    exact ⟨⟨c, route, r, source, metered⟩, by rw [build?, hroute]; rfl,
      endpointAt_of_accepts honly⟩

/-- A query in a URL without parameters is empty, and still answered. -/
theorem status_serve_get (g : Gateway) {u : Uri} (h : Form.parse u.query = [])
    (body : List UInt8) : (g.serve u .get body).response.status = 200 := by
  rw [serve, decodeQuery, h]
  rfl

/-- A colon and an asterisk that do not start a segment. -/
def versioned : Config := { graphql := { path := "/api:v1/graphql*" } }

theorem exists_endpointAt_versioned : ∃ reg g,
    Registry.ofDescriptors dataEntity getData = .ok reg ∧
      build? versioned reg widget true = some g ∧
      (g.handle { method := .get, target := "/api:v1/graphql*" }).response.status = 200 ∧
      (g.handle { method := .get, target := "/api:v1/graphql" }).response.status = 404 := by
  obtain ⟨reg, hreg⟩ := Registry.exists_builtin
  obtain ⟨g, hg, hend⟩ := (exists_endpointAt_iff (c := versioned) (by decide +kernel) reg widget
    true).2 (by decide +kernel)
  refine ⟨reg, g, hreg, hg, ?_, ?_⟩
  · rw [hend.served _ ⟨"", "", "/api:v1/graphql*"⟩ (by decide +kernel) (by decide +kernel)]
    exact g.status_serve_get (by decide +kernel) []
  · exact (hend.elsewhere _ ⟨"", "", "/api:v1/graphql"⟩ (by decide +kernel) (by decide +kernel)).1

/-- A path whose segment starts with a colon. -/
def marked : Config := { graphql := { path := "/:x" } }

/-- A path with a gap. -/
def gapped : Config := { graphql := { path := "/\x7bx\x7d" } }

/-- A sound configuration may make no gateway, or one that takes queries on other paths too. -/
theorem not_endpointAt_of_isSound :
    (marked.isSound = true ∧ ∀ r source metered, build? marked r source metered = none) ∧
    gapped.isSound = true ∧ ∀ r source metered, ∃ g u,
      build? gapped r source metered = some g ∧ Uri.parse? "/other" = some u ∧
        u.path ≠ gapped.graphql.path ∧
        (g.handle { method := .get, target := "/other" }).response.status = 200 := by
  have hmarked : Route.parse? marked.graphql.path = none := by decide +kernel
  have hgapped : Route.parse? gapped.graphql.path = some ⟨[.text ['/'], .segment]⟩ := by
    decide +kernel
  have hother : Uri.parse? "/other" = some ⟨"", "", "/other"⟩ := by decide +kernel
  refine ⟨⟨by decide +kernel, fun r source metered => by rw [build?, hmarked]; rfl⟩,
    by decide +kernel, fun r source metered => ?_⟩
  let g : Gateway := ⟨gapped, ⟨[.text ['/'], .segment]⟩, r, source, metered⟩
  refine ⟨g, _, by rw [build?, hgapped]; rfl, hother, by decide +kernel, ?_⟩
  have haccepts : g.route.accepts (Uri.path ⟨"", "", "/other"⟩) = true := by
    show Route.accepts ⟨[.text ['/'], .segment]⟩ _ = true
    decide +kernel
  simp only [handle, hother, haccepts, if_true]
  exact g.status_serve_get (by decide +kernel) []

end Gateway
end RecordGateway
