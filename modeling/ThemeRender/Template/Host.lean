import ThemeRender.Data.Locals
import ThemeRender.Page.Stage
import ThemeRender.Theme.RenderError

namespace ThemeRender

/-- Rendering writes output, changes the state `σ` of those who take part, and may fail. -/
abbrev Render (σ : Type) := Staged RenderError σ

namespace Template

structure Host (σ : Type) where
  yieldView : Render σ Unit
  renderPartial : String → Locals → Render σ Unit
  partialContent : String → Locals → Render σ String

end Template

end ThemeRender
