import DesignMarkup.Main
import DesignMarkup.Service.Tokens
import DesignMarkup.Proofs.Computations
import DesignMarkup.Proofs.Walk
import DesignMarkup.Proofs.ClassNames
import DesignMarkup.Proofs.Entities
import DesignMarkup.Proofs.MarkupReader
import DesignMarkup.Proofs.PrintedPage
import DesignMarkup.Proofs.Declared
import DesignMarkup.Proofs.Tables
import DesignMarkup.Proofs.Harvested
import DesignMarkup.Proofs.Doubles
import DesignMarkup.Proofs.Quantities
import DesignMarkup.Proofs.Typed
import DesignMarkup.Proofs.Total
import DesignMarkup.Proofs.InertText
import DesignMarkup.Proofs.StylesheetReader
import DesignMarkup.Proofs.PrintedSheet
import DesignMarkup.Proofs.Aspects
import DesignMarkup.Proofs.Pruned
import DesignMarkup.Proofs.Coherent
import DesignMarkup.Proofs.Sessions
import DesignMarkup.Proofs.Digits
import DesignMarkup.Proofs.Patience
import DesignMarkup.Proofs.Levels
import DesignMarkup.Proofs.Exchanges
import DesignMarkup.Proofs.Imports
import DesignMarkup.Proofs.Traffic
import DesignMarkup.Proofs.ImportedStyles
import DesignMarkup.Proofs.ImageFailures
import DesignMarkup.Proofs.ShareLinks
import DesignMarkup.Proofs.Outputs
import DesignMarkup.Proofs.FirstFrames
import DesignMarkup.Proofs.StyleElements
import DesignMarkup.Proofs.ClassLanguage
import DesignMarkup.Proofs.OptionReach
import DesignMarkup.Proofs.ServiceHosts
import DesignMarkup.Proofs.UnreadMembers
import DesignMarkup.Proofs.ClassWords
import DesignMarkup.Proofs.SheetLines
import DesignMarkup.Proofs.Selectors
import DesignMarkup.Proofs.SnippetComments
import DesignMarkup.Proofs.Targets
import DesignMarkup.Proofs.PauseHeaders
import DesignMarkup.Proofs.AcceptedStatuses
import DesignMarkup.Proofs.ShortestDecimals
import DesignMarkup.Proofs.Numerals
import DesignMarkup.Proofs.NumberLine
import DesignMarkup.Proofs.ValueReader
import DesignMarkup.Proofs.Gradients
import DesignMarkup.Proofs.MergedEffects
import DesignMarkup.Proofs.GlyphColors
import DesignMarkup.Proofs.PaddingSides
import DesignMarkup.Proofs.AuthorizationLinks
import DesignMarkup.Proofs.Parallel
import DesignMarkup.Proofs.Secrets
import DesignMarkup.Proofs.BrokenWalks
import DesignMarkup.Proofs.TagWords
import DesignMarkup.Proofs.OptionNames
import DesignMarkup.Proofs.DoubleParts
import DesignMarkup.Proofs.NearestDoubles
import DesignMarkup.Proofs.Rounding
import DesignMarkup.Proofs.NearestReading
import DesignMarkup.Proofs.ExactNumerals
