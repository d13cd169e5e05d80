import YkptParser.Bits
import YkptParser.Packets
import YkptParser.Parser
import YkptParser.Framing
import YkptParser.Pull
import YkptParser.Decompress
import YkptParser.Runs
import YkptParser.Consumption
import YkptParser.Truncation
import YkptParser.RoundTrip
import YkptParser.Soundness
import YkptParser.Reorder
import YkptParser.ErrorMessage
