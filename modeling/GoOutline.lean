import GoOutline.Command.Run
import GoOutline.Proofs.Archive.Respell
import GoOutline.Proofs.Outline.Numbers
import GoOutline.Proofs.Outline.Skeleton
import GoOutline.Proofs.Outline.Sweep
import GoOutline.Proofs.Source.Bundle
import GoOutline.Proofs.Source.Lines
import GoOutline.Proofs.Syntax.Blank
import GoOutline.Proofs.Json.Read
import GoOutline.Proofs.Json.RoundTrip
import GoOutline.Proofs.Syntax.TypeLabel
import GoOutline.Proofs.Yaml.Gaps
import GoOutline.Proofs.Yaml.Quoted
import GoOutline.Proofs.Yaml.Block
import GoOutline.Proofs.Yaml.Plain
import GoOutline.Proofs.Yaml.Document
import GoOutline.Proofs.Files.Written
import GoOutline.Proofs.Config.Saved
