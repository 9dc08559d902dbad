import LogLayout.Converter.DateStyle

/-!
# Styles that are made

A style is tried on one instant only: it is made if its zone is found and the library can write its
format for the epoch. Of another instant it writes what the library does.
-/

namespace LogLayout.DateStyle

open Calendar (Zone)

variable [Libraries] {usual : Zone} {options : List String} {style : DateStyle}

theorem ofOptions_eq_ok_iff :
    ofOptions usual options = .ok style ↔
      style.format = formatOf options[0]? ∧ zoneOf usual options[1]? = .ok style.zone ∧
        ∃ text, style.render .epoch = .ok text := by
  unfold ofOptions
  constructor
  · intro h
    split at h
    case h_1 => cases h
    case h_2 zone hzone =>
      dsimp only at h
      split at h
      case h_1 => cases h
      case h_2 text htext =>
        cases h
        exact ⟨rfl, hzone, text, htext⟩
  · obtain ⟨format, zone⟩ := style
    rintro ⟨rfl, hzone, text, htext⟩
    dsimp only at hzone htext ⊢
    rw [hzone]
    dsimp only
    rw [htext]

theorem text_eq_of_render {t : Instant} {text : String} (hdated : Libraries.isDated t = true)
    (h : style.render t = .ok text) : style.text t = text := by
  rw [DateStyle.text, if_pos hdated, h]
  rfl

end LogLayout.DateStyle
